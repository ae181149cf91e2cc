import Mathlib.Data.List.Basic
import StressAppTest.Disk.TableInvariant

/-!
# `DiskThread::DoWork` and its readers

One `DiskThread` writes blocks and reads them back, and `RandomDiskThread`s read random blocks of
the same table. `DoWork` calls `block->initialized()`, which reads the flag, where the flag should
be set. No block of any run is initialized, so `GetRandomBlock` returns none of them.
-/

namespace StressAppTest.Disk

/-- The parameters of `DoWork`: `queueLimit` is `static_cast<size_t>(queue_size_ + 1)`. -/
structure Config where
  nonDestructive : Bool
  queueLimit : Nat

/-- Where `DoWork` is. -/
inductive Pc where
  | outer
  | writePhase
  /-- In `GetUnusedBlock`. -/
  | getting
  /-- In `WriteBlockToDisk`. -/
  | writing (block : Nat)
  /-- Before `block->initialized()`. -/
  | pushing (block : Nat)
  /-- Before `FlushPageCache`. -/
  | flushing
  | readPhase
  /-- In `ValidateBlockOnDisk`. -/
  | validating (block : Nat)
  /-- Before `RemoveBlock`, after which `DoWork` gives up or goes on with the read phase. -/
  | removing (block : Nat) (giveUp : Bool)
  /-- In `RemoveBlock`, before the lock. -/
  | unlinking (block : Nat) (giveUp : Bool)
  /-- In `RemoveInFlightBlocks`, before the end of `DoWork`. -/
  | cleanup
  | done

/-- The threads with their table. `complete` are the blocks that were written, or added where
nothing is written, and `published` those that were pushed and not removed. -/
structure System (τ : Type) where
  table : Table τ
  pc : Pc
  inFlight : List Nat
  complete : List Nat
  published : List Nat

def System.initial (τ : Type) : System τ := ⟨Disk.initial τ, .outer, [], [], []⟩

/-- A step of `DoWork` outside the table, with the answer of the condition or of the I/O, or a step
of the table. -/
inductive Label (τ : Type) where
  | work (ok : Bool)
  | table (e : Event τ)

variable {τ : Type} [DecidableEq τ]

/-- `GetUnusedBlock`, and what `DoWork` does with the block. -/
def System.getUnusedBlock (c : Config) (s : System τ) (e : Event τ) : Option (System τ) :=
  match s.table.writer, e with
  | .idle, .alloc => some { s with table := alloc s.table }
  | .searching block tries, .check sector fits =>
      if tries < kBlockRetry then some { s with table := check s.table block tries sector fits }
      else none
  | .searching block tries, .giveUp =>
      if kBlockRetry ≤ tries then
        (giveUp s.table block).map fun table => { s with table := table, pc := .writePhase }
      else none
  | .found block sector, .prepare =>
      some { s with table := { s.table with writer := .inserting block sector s.table.size } }
  | .inserting block sector pos, .insert =>
      (insert s.table block sector pos).map fun table =>
        if c.nonDestructive then
          { s with table := table, pc := .pushing block, complete := block :: s.complete }
        else { s with table := table, pc := .writing block }
  | _, _ => none

/-- Where `DoWork` goes after `RemoveBlock`. -/
def afterRemove (giveUp : Bool) : Pc := if giveUp then .cleanup else .readPhase

/-- `RemoveBlock` -/
def System.removeBlock (s : System τ) (e : Event τ) : Option (System τ) :=
  match s.pc, s.table.writer, e with
  | .removing block giveUp, .idle, .beginRemove b =>
      if b = block then
        (beginRemove s.table block).map fun table =>
          match table.writer with
          | .removing _ _ _ _ => { s with table := table, pc := .unlinking block giveUp }
          | _ => { s with table := table, pc := afterRemove giveUp }
      else none
  | .unlinking block giveUp, .removing b address currPos lastAddress, .remove =>
      (remove s.table b address currPos lastAddress).map fun table =>
        { s with table := table, pc := afterRemove giveUp, published := s.published.erase block }
  | _, _, _ => none

/-- The steps of `DoWork` outside the table. -/
def System.doWork (c : Config) (s : System τ) (ok : Bool) : Option (System τ) :=
  match s.pc with
  | .outer => some { s with pc := if ok then .writePhase else .cleanup }
  | .writePhase =>
      some { s with
        pc := if ok && decide (s.inFlight.length < c.queueLimit) then .getting else .flushing }
  | .writing block =>
      (s.table.heap block).map fun _ =>
        if ok then { s with pc := .pushing block, complete := block :: s.complete }
        else { s with pc := .removing block true }
  | .pushing block =>
      -- `block->initialized()` reads the flag and changes nothing
      (s.table.heap block).map fun _ =>
        { s with
          pc := .writePhase
          inFlight := s.inFlight ++ [block]
          published := block :: s.published }
  | .flushing => some { s with pc := if ok then .readPhase else .cleanup }
  | .readPhase =>
      match s.inFlight with
      | [] => some { s with pc := .outer }
      | block :: rest =>
          if ok then some { s with inFlight := rest, pc := .validating block }
          else some { s with pc := .outer }
  | .validating block => (s.table.heap block).map fun _ => { s with pc := .removing block (!ok) }
  | .cleanup =>
      match s.inFlight with
      | [] => some { s with pc := .done }
      | block :: rest => some { s with inFlight := rest, pc := .removing block true }
  | _ => none

/-- The operations of a `RandomDiskThread`: it gets a block, reads it and releases it. -/
def System.read (s : System τ) (e : Event τ) : Option (System τ) :=
  match e with
  | .get t _ =>
      if (s.table.holding t).isNone then
        (Disk.next s.table e).map fun table => { s with table := table }
      else none
  | .useHeld _ | .release _ => (Disk.next s.table e).map fun table => { s with table := table }
  | _ => none

def System.next (c : Config) (s : System τ) : Label τ → Option (System τ)
  | .work ok => s.doWork c ok
  | .table e =>
      match e with
      | .get _ _ | .useHeld _ | .release _ => s.read e
      | .beginRemove _ | .remove => s.removeBlock e
      | _ =>
          match s.pc with
          | .getting => s.getUnusedBlock c e
          | _ => none

def System.run (c : Config) (s : System τ) (labels : List (Label τ)) : Option (System τ) :=
  labels.foldlM (System.next c) s

/-! ## The lookups of a run -/

/-- The block at a random position. -/
def selected (s : Table τ) (random : Nat) : Option Nat :=
  if s.size = 0 then none
  else do
    let address ← s.posToAddr[random % s.size]?
    let sd ← s.addrToBlock address
    return sd.block

/-- What a lookup should give: the block at the random position when it is published, and never a
block that is not complete. -/
def LookupOk (s : System τ) (random : Nat) (returned : Option Nat) : Prop :=
  (∀ block ∈ s.published, selected s.table random = some block → returned = some block) ∧
    ∀ block, returned = some block → block ∈ s.complete

/-- A call of `GetRandomBlock` in a run, with the state before it and what it returned. -/
def Looks (c : Config) (labels : List (Label τ)) (s : System τ) (random : Nat)
    (returned : Option Nat) : Prop :=
  ∃ pre t post s', labels = pre ++ .table (.get t random) :: post ∧
    (System.initial τ).run c pre = some s ∧
    s.next c (.table (.get t random)) = some s' ∧ returned = s'.table.holding t

/-! ## No block is initialized -/

/-- No block of the table is initialized, and no reader has got one. -/
structure Blank (s : Table τ) : Prop where
  initialized : ∀ b data, s.heap b = some data → data.initialized = false
  holding : ∀ t, s.holding t = none

omit [DecidableEq τ] in
theorem blank_initial : Blank (initial τ) := ⟨nofun, fun _ => rfl⟩

/-- A change of one block keeps the flags if it keeps that of the block. -/
theorem initialized_update {heap : Nat → Option BlockData} {block : Nat} {new : Option BlockData}
    (h : ∀ b data, heap b = some data → data.initialized = false)
    (hnew : ∀ data, new = some data → data.initialized = false) (b : Nat) (data : BlockData)
    (hdata : Function.update heap block new b = some data) : data.initialized = false := by
  by_cases hb : b = block
  · subst hb
    rw [Function.update_self] at hdata
    exact hnew data hdata
  · rw [Function.update_of_ne hb] at hdata
    exact h b data hdata

/-- Of the operations, only `set_initialized` sets a flag. -/
theorem Blank.next {s s' : Table τ} (h : Blank s) {e : Event τ} (he : ∀ b, e ≠ .setInitialized b)
    (hnext : Disk.next s e = some s') : Blank s' := by
  cases e with
  | alloc =>
      rw [Disk.next, Option.some.injEq] at hnext
      subst hnext
      refine ⟨initialized_update h.initialized ?_, h.holding⟩
      intro data hdata
      rw [← Option.some.inj hdata]
  | check sector fits =>
      rw [Disk.next] at hnext
      split at hnext
      · rw [Option.some.injEq, check] at hnext
        subst hnext
        split
        · exact ⟨h.initialized, h.holding⟩
        · exact ⟨h.initialized, h.holding⟩
      · cases hnext
  | giveUp =>
      rw [Disk.next] at hnext
      split at hnext
      · obtain ⟨data, -, hs'⟩ := Option.bind_eq_some_iff.mp hnext
        rw [← Option.some.inj hs']
        exact ⟨initialized_update h.initialized (by simp), h.holding⟩
      · cases hnext
  | prepare =>
      rw [Disk.next] at hnext
      split at hnext
      · rw [← Option.some.inj hnext]
        exact ⟨h.initialized, h.holding⟩
      · cases hnext
  | insert =>
      rw [Disk.next] at hnext
      split at hnext
      · next block sector pos hw =>
        obtain ⟨data, hdata, hs'⟩ := Option.bind_eq_some_iff.mp hnext
        rw [← Option.some.inj hs']
        refine ⟨initialized_update h.initialized ?_, h.holding⟩
        intro d hd
        rw [← Option.some.inj hd]
        exact h.initialized block data hdata
      · cases hnext
  | setInitialized block => exact absurd rfl (he block)
  | useOwn block =>
      obtain ⟨data, -, hs'⟩ := Option.map_eq_some_iff.mp hnext
      rw [← hs']
      exact h
  | beginRemove block =>
      obtain ⟨data, -, hrest⟩ := Option.bind_eq_some_iff.mp hnext
      split at hrest
      · rw [← Option.some.inj hrest]
        exact h
      · obtain ⟨last, -, hrest⟩ := Option.bind_eq_some_iff.mp hrest
        split at hrest
        · cases hrest
        · obtain ⟨sd, -, hs'⟩ := Option.bind_eq_some_iff.mp hrest
          rw [← Option.some.inj hs']
          exact ⟨h.initialized, h.holding⟩
  | remove =>
      rw [Disk.next] at hnext
      split at hnext
      · next block address currPos lastAddress hw =>
        obtain ⟨last, -, hrest⟩ := Option.bind_eq_some_iff.mp hnext
        obtain ⟨lastData, -, hrest⟩ := Option.bind_eq_some_iff.mp hrest
        obtain ⟨data, hdata, hs'⟩ := Option.bind_eq_some_iff.mp hrest
        rw [← Option.some.inj hs']
        refine ⟨initialized_update h.initialized ?_, h.holding⟩
        intro d hd
        split at hd
        · cases hd
        · rw [← Option.some.inj hd]
          exact h.initialized block data hdata
      · cases hnext
  | get t random =>
      rw [Disk.next, getRandomBlock] at hnext
      split at hnext
      · rw [← Option.some.inj hnext]
        exact h
      · obtain ⟨address, -, hrest⟩ := Option.bind_eq_some_iff.mp hnext
        obtain ⟨sd, -, hrest⟩ := Option.bind_eq_some_iff.mp hrest
        obtain ⟨data, hdata, hs'⟩ := Option.bind_eq_some_iff.mp hrest
        rw [if_neg (by simp [h.initialized _ data hdata])] at hs'
        rw [← Option.some.inj hs']
        exact h
  | useHeld t =>
      rw [Disk.next, h.holding t] at hnext
      cases hnext
  | release t =>
      rw [Disk.next, h.holding t] at hnext
      cases hnext

/-! ## The threads and the table -/

/-- The block that `DoWork` has in hand. -/
def Pc.inHand : Pc → List Nat
  | .writing block | .pushing block | .validating block | .removing block _ | .unlinking block _ => [block]
  | _ => []

/-- `DoWork` has in hand and in flight the blocks that it has got from the table and not removed,
and is in the operation of the table that it has called. -/
structure System.Owned (s : System τ) : Prop where
  own : (s.pc.inHand ++ s.inFlight).Perm s.table.own
  writer :
    match s.pc with
    | .getting => ∀ block address currPos lastAddress,
        s.table.writer ≠ .removing block address currPos lastAddress
    | .unlinking block _ => ∃ address currPos lastAddress,
        s.table.writer = .removing block address currPos lastAddress
    | _ => s.table.writer = .idle

omit [DecidableEq τ] in
theorem System.owned_initial : (System.initial τ).Owned := ⟨List.Perm.refl _, rfl⟩

/-- A step of the table that the threads can make. -/
def Calls (s s' : Table τ) : Prop :=
  ∃ e, Enabled s e ∧ (∀ b, e ≠ .setInitialized b) ∧ Disk.next s e = some s'

omit [DecidableEq τ] in
/-- Outside the table, `DoWork` only moves blocks between its hand and the queue. -/
theorem System.Owned.doWork {c : Config} {s s' : System τ} {ok : Bool} (h : s.Owned)
    (hnext : s.doWork c ok = some s') : s'.Owned ∧ s'.table = s.table := by
  have hown := h.own
  have hwriter := h.writer
  rw [System.doWork] at hnext
  split at hnext
  next hpc =>
    rw [hpc] at hown hwriter
    rw [← Option.some.inj hnext]
    cases ok with
    | false => exact ⟨⟨hown, hwriter⟩, rfl⟩
    | true => exact ⟨⟨hown, hwriter⟩, rfl⟩
  next hpc =>
    rw [hpc] at hown hwriter
    rw [← Option.some.inj hnext]
    refine ⟨?_, rfl⟩
    split
    · refine ⟨hown, ?_⟩
      intro block address currPos lastAddress hcon
      rw [hwriter] at hcon
      cases hcon
    · exact ⟨hown, hwriter⟩
  next block hpc =>
    rw [hpc] at hown hwriter
    obtain ⟨data, -, hs'⟩ := Option.map_eq_some_iff.mp hnext
    rw [← hs']
    cases ok with
    | false => exact ⟨⟨hown, hwriter⟩, rfl⟩
    | true => exact ⟨⟨hown, hwriter⟩, rfl⟩
  next block hpc =>
    rw [hpc] at hown hwriter
    obtain ⟨data, -, hs'⟩ := Option.map_eq_some_iff.mp hnext
    rw [← hs']
    exact ⟨⟨(List.perm_append_singleton block s.inFlight).trans hown, hwriter⟩, rfl⟩
  next hpc =>
    rw [hpc] at hown hwriter
    rw [← Option.some.inj hnext]
    cases ok with
    | false => exact ⟨⟨hown, hwriter⟩, rfl⟩
    | true => exact ⟨⟨hown, hwriter⟩, rfl⟩
  next hpc =>
    rw [hpc] at hown hwriter
    split at hnext
    · rw [← Option.some.inj hnext]
      exact ⟨⟨hown, hwriter⟩, rfl⟩
    · next block rest hflight =>
      rw [hflight] at hown
      split at hnext
      · rw [← Option.some.inj hnext]
        exact ⟨⟨hown, hwriter⟩, rfl⟩
      · rw [← Option.some.inj hnext]
        refine ⟨⟨?_, hwriter⟩, rfl⟩
        rw [hflight]
        exact hown
  next block hpc =>
    rw [hpc] at hown hwriter
    obtain ⟨data, -, hs'⟩ := Option.map_eq_some_iff.mp hnext
    rw [← hs']
    exact ⟨⟨hown, hwriter⟩, rfl⟩
  next hpc =>
    rw [hpc] at hown hwriter
    split at hnext
    · rw [← Option.some.inj hnext]
      exact ⟨⟨hown, hwriter⟩, rfl⟩
    · next block rest hflight =>
      rw [hflight] at hown
      rw [← Option.some.inj hnext]
      exact ⟨⟨hown, hwriter⟩, rfl⟩
  next => cases hnext

theorem System.Owned.getUnusedBlock {c : Config} {s s' : System τ} {e : Event τ} (h : s.Owned)
    (hpc : s.pc = .getting) (hnext : s.getUnusedBlock c e = some s') :
    s'.Owned ∧ Calls s.table s'.table := by
  have hown : s.inFlight.Perm s.table.own := by
    have hown := h.own
    rw [hpc] at hown
    exact hown
  -- the operations that go on in `GetUnusedBlock`
  have hstay {table : Table τ} (htable : table.own = s.table.own)
      (hwriter : ∀ block address currPos lastAddress,
        table.writer ≠ .removing block address currPos lastAddress) :
      System.Owned { s with table := table } := by
    refine ⟨?_, ?_⟩
    · rw [hpc, htable]
      exact hown
    · rw [hpc]
      exact hwriter
  unfold System.getUnusedBlock at hnext
  split at hnext
  next hw =>
    rw [← Option.some.inj hnext]
    exact ⟨hstay rfl (by simp [alloc]), .alloc, hw, by simp, rfl⟩
  next block tries sector fits hw =>
    split at hnext
    · next htries =>
      rw [← Option.some.inj hnext]
      refine ⟨?_, .check sector fits, ⟨block, tries, hw, htries⟩, by simp, by simp only [Disk.next, hw]⟩
      rw [check]
      split
      · exact hstay rfl (by simp)
      · exact hstay rfl (by simp)
    · cases hnext
  next block tries hw =>
    split at hnext
    · next htries =>
      obtain ⟨table, htable, hs'⟩ := Option.map_eq_some_iff.mp hnext
      rw [← hs']
      refine ⟨?_, .giveUp, ⟨block, tries, hw, htries⟩, by simp, by simp only [Disk.next, hw, htable]⟩
      obtain ⟨data, -, hrest⟩ := Option.bind_eq_some_iff.mp htable
      rw [← Option.some.inj hrest]
      exact ⟨hown, rfl⟩
    · cases hnext
  next block sector hw =>
    rw [← Option.some.inj hnext]
    exact ⟨hstay rfl (by simp), .prepare, ⟨block, sector, hw⟩, by simp, by simp only [Disk.next, hw]⟩
  next block sector pos hw =>
    obtain ⟨table, htable, hs'⟩ := Option.map_eq_some_iff.mp hnext
    have hcall : Disk.next s.table .insert = some table := by simp only [Disk.next, hw, htable]
    obtain ⟨data, -, hrest⟩ := Option.bind_eq_some_iff.mp htable
    have hidle : table.writer = .idle := by rw [← Option.some.inj hrest]
    have hperm : (block :: s.inFlight).Perm table.own := by
      rw [← Option.some.inj hrest]
      exact (hown.cons block).trans (List.perm_append_singleton block s.table.own).symm
    rw [← hs']
    split
    · exact ⟨⟨hperm, hidle⟩, .insert, ⟨block, sector, pos, hw⟩, by simp, hcall⟩
    · exact ⟨⟨hperm, hidle⟩, .insert, ⟨block, sector, pos, hw⟩, by simp, hcall⟩
  next => cases hnext

omit [DecidableEq τ] in
theorem System.owned_afterRemove {table : Table τ} {giveUp : Bool} {inFlight complete published : List Nat}
    (hown : inFlight.Perm table.own) (hidle : table.writer = .idle) :
    System.Owned ⟨table, afterRemove giveUp, inFlight, complete, published⟩ := by
  cases giveUp with
  | false => exact ⟨hown, hidle⟩
  | true => exact ⟨hown, hidle⟩

theorem System.Owned.removeBlock {s s' : System τ} {e : Event τ} (h : s.Owned)
    (hmap : ∀ block data, block ∈ s.table.own → s.table.heap block = some data →
      (s.table.addrToBlock data.address).isSome)
    (hnext : s.removeBlock e = some s') : s'.Owned ∧ Calls s.table s'.table := by
  have hown := h.own
  have hwriter := h.writer
  unfold System.removeBlock at hnext
  split at hnext
  next block giveUp b hpc hw =>
    rw [hpc] at hown
    split at hnext
    · next hb =>
      subst hb
      have hmem : b ∈ s.table.own := hown.subset (List.mem_cons_self ..)
      obtain ⟨table, htable, hs'⟩ := Option.map_eq_some_iff.mp hnext
      obtain ⟨data, hdata, hrest⟩ := Option.bind_eq_some_iff.mp htable
      obtain ⟨sd, hsd⟩ := Option.isSome_iff_exists.mp (hmap b data hmem hdata)
      rw [hsd] at hrest
      obtain ⟨last, -, hrest⟩ := Option.bind_eq_some_iff.mp hrest
      split at hrest
      · cases hrest
      obtain ⟨lastData, -, hrest⟩ := Option.bind_eq_some_iff.mp hrest
      have htable' := Option.some.inj hrest
      rw [← hs']
      have hcall : Disk.next s.table (.beginRemove b) = some table := htable
      have hbegin : Calls s.table table := ⟨.beginRemove b, ⟨hw, hmem⟩, by simp, hcall⟩
      subst htable'
      exact ⟨⟨hown, ⟨_, _, _, rfl⟩⟩, hbegin⟩
    · cases hnext
  next block giveUp b address currPos lastAddress hpc hw =>
    rw [hpc] at hown hwriter
    obtain ⟨_, _, _, hw'⟩ := hwriter
    rw [hw, Writer.removing.injEq] at hw'
    obtain ⟨rfl, -, -, -⟩ := hw'
    obtain ⟨table, htable, hs'⟩ := Option.map_eq_some_iff.mp hnext
    have hcall : Disk.next s.table .remove = some table := by simp only [Disk.next, hw, htable]
    obtain ⟨last, -, hrest⟩ := Option.bind_eq_some_iff.mp htable
    obtain ⟨lastData, -, hrest⟩ := Option.bind_eq_some_iff.mp hrest
    obtain ⟨data, -, hrest⟩ := Option.bind_eq_some_iff.mp hrest
    rw [← hs']
    refine ⟨System.owned_afterRemove ?_ ?_, .remove, ⟨b, address, currPos, lastAddress, hw⟩, by simp, hcall⟩
    · rw [← Option.some.inj hrest]
      have herase := hown.erase b
      rw [show (Pc.unlinking b giveUp).inHand ++ s.inFlight = b :: s.inFlight from rfl,
        List.erase_cons_head] at herase
      exact herase
    · rw [← Option.some.inj hrest]
  next => cases hnext

theorem System.Owned.read {s s' : System τ} {e : Event τ} (h : s.Owned)
    (hnext : s.read e = some s') : s'.Owned ∧ Calls s.table s'.table := by
  -- the readers leave the blocks and the program of the writer alone
  have hkeep {table : Table τ} (hown : table.own = s.table.own) (hwriter : table.writer = s.table.writer) :
      System.Owned { s with table := table } := by
    refine ⟨?_, ?_⟩
    · rw [hown]
      exact h.own
    · rw [hwriter]
      exact h.writer
  unfold System.read at hnext
  split at hnext
  next t random =>
    split at hnext
    · next hnone =>
      obtain ⟨table, htable, hs'⟩ := Option.map_eq_some_iff.mp hnext
      rw [← hs']
      refine ⟨?_, .get t random, Option.isNone_iff_eq_none.mp hnone, by simp, htable⟩
      rw [Disk.next, getRandomBlock] at htable
      split at htable
      · rw [← Option.some.inj htable]
        exact hkeep rfl rfl
      · obtain ⟨address, -, hrest⟩ := Option.bind_eq_some_iff.mp htable
        obtain ⟨sd, -, hrest⟩ := Option.bind_eq_some_iff.mp hrest
        obtain ⟨data, -, hrest⟩ := Option.bind_eq_some_iff.mp hrest
        split at hrest
        · rw [← Option.some.inj hrest]
          exact hkeep rfl rfl
        · rw [← Option.some.inj hrest]
          exact hkeep rfl rfl
    · cases hnext
  next t =>
    obtain ⟨table, htable, hs'⟩ := Option.map_eq_some_iff.mp hnext
    obtain ⟨block, hblock, hrest⟩ := Option.bind_eq_some_iff.mp htable
    obtain ⟨data, -, hrest⟩ := Option.map_eq_some_iff.mp hrest
    rw [← hs']
    refine ⟨?_, .useHeld t, by rw [Enabled, hblock]; rfl, by simp, htable⟩
    rw [← hrest]
    exact hkeep rfl rfl
  next t =>
    obtain ⟨table, htable, hs'⟩ := Option.map_eq_some_iff.mp hnext
    obtain ⟨block, hblock, hrest⟩ := Option.bind_eq_some_iff.mp htable
    obtain ⟨data, -, hrest⟩ := Option.bind_eq_some_iff.mp hrest
    rw [← hs']
    refine ⟨?_, .release t, by rw [Enabled, hblock]; rfl, by simp, htable⟩
    rw [← Option.some.inj hrest]
    exact hkeep rfl rfl
  next => cases hnext

/-- What holds in every run: the table is one of its own runs, and no block is initialized. -/
structure System.Ok (s : System τ) : Prop where
  owned : s.Owned
  table : Reachable s.table
  blank : Blank s.table

theorem System.ok_initial : (System.initial τ).Ok :=
  ⟨System.owned_initial, Relation.ReflTransGen.refl, blank_initial⟩

section Runs

variable [Fintype τ]

theorem System.Ok.next {c : Config} {s s' : System τ} {l : Label τ} (h : s.Ok)
    (hnext : s.next c l = some s') : s'.Ok := by
  have hcalls (hstep : s'.Owned ∧ Calls s.table s'.table) : s'.Ok := by
    obtain ⟨howned, e, he, hset, hcall⟩ := hstep
    exact ⟨howned, h.table.next e he hcall, h.blank.next hset hcall⟩
  have hinv := inv_of_reachable h.table
  cases l with
  | work ok =>
      obtain ⟨howned, htable⟩ := h.owned.doWork hnext
      refine ⟨howned, ?_, ?_⟩
      · rw [htable]
        exact h.table
      · rw [htable]
        exact h.blank
  | table e =>
      have hmap (block : Nat) (data : BlockData) (hmem : block ∈ s.table.own)
          (hdata : s.table.heap block = some data) : (s.table.addrToBlock data.address).isSome := by
        obtain ⟨d, pos, hd, hsd⟩ := hinv.own block hmem
        rw [hdata, Option.some.injEq] at hd
        rw [hd, hsd]
        rfl
      unfold System.next at hnext
      split at hnext
      next hl => cases hl
      next e' hl =>
        obtain rfl : e = e' := Label.table.inj hl
        split at hnext
        · exact hcalls (h.owned.read hnext)
        · exact hcalls (h.owned.read hnext)
        · exact hcalls (h.owned.read hnext)
        · exact hcalls (h.owned.removeBlock hmap hnext)
        · exact hcalls (h.owned.removeBlock hmap hnext)
        · split at hnext
          · next hpc => exact hcalls (h.owned.getUnusedBlock hpc hnext)
          · cases hnext

theorem System.Ok.run {c : Config} {s s' : System τ} (h : s.Ok) {labels : List (Label τ)}
    (hrun : s.run c labels = some s') : s'.Ok := by
  induction labels generalizing s with
  | nil =>
      rw [← Option.some.inj hrun]
      exact h
  | cons l labels ih =>
      obtain ⟨s₁, hnext, hrest⟩ := Option.bind_eq_some_iff.mp hrun
      exact ih (h.next hnext) hrest

/-- A lookup returns no block, whatever it selects. -/
theorem Looks.returned_eq {c : Config} {labels : List (Label τ)} {s : System τ} {random : Nat}
    {returned : Option Nat} (h : Looks c labels s random returned) : returned = none := by
  obtain ⟨pre, t, post, s', -, hpre, hnext, rfl⟩ := h
  have hok : s'.Ok := (System.ok_initial.run hpre).next hnext
  exact hok.blank.holding t

end Runs

/-- A run gives its readers what they should get if and only if none of them ever selects a
published block. -/
theorem published_blocks_readable {τ : Type} [DecidableEq τ] [Fintype τ] (c : Config)
    (labels : List (Label τ)) :
    (∀ s random returned, Looks c labels s random returned → LookupOk s random returned) ↔
      ∀ s random returned, Looks c labels s random returned →
        ∀ block, selected s.table random = some block → block ∉ s.published := by
  constructor
  · intro h s random returned hlooks block hselected hpublished
    have hreturned := (h s random returned hlooks).1 block hpublished hselected
    rw [hlooks.returned_eq] at hreturned
    cases hreturned
  · intro h s random returned hlooks
    refine ⟨?_, ?_⟩
    · intro block hpublished hselected
      exact absurd hpublished (h s random returned hlooks block hselected)
    · intro block hreturned
      rw [hlooks.returned_eq] at hreturned
      cases hreturned

/-- One block is written and pushed, and a reader selects it. -/
theorem published_block_not_returned : ¬ ∀ (c : Config) (labels : List (Label (Fin 1))) s random returned,
    Looks c labels s random returned → LookupOk s random returned := by
  intro h
  have hlooks : Looks (τ := Fin 1) ⟨false, 4⟩
      [.work true, .work true, .table .alloc, .table (.check 8 true), .table .prepare, .table .insert,
        .work true, .work true, .table (.get 0 5)] _ 5 none :=
    ⟨[.work true, .work true, .table .alloc, .table (.check 8 true), .table .prepare, .table .insert,
      .work true, .work true], 0, [], _, rfl, rfl, rfl, rfl⟩
  have hreturned := (h _ _ _ _ _ hlooks).1 0 (List.mem_singleton.mpr rfl) rfl
  cases hreturned

end StressAppTest.Disk
