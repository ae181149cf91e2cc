import StressAppTest.Disk.DiskSession

/-!
# The verdicts of a session

Blocks that are written and not yet read back lie apart, so a write changes no other of them, and a word
that the disk loses belongs to one of them at most. The words that are wrong in these blocks, with the errors
that have been found, are never more than the words lost (`disk_verdict`).
-/

namespace StressAppTest.Disk

open StoredObjects

variable {τ : Type} [DecidableEq τ]

/-! ## The addresses of the blocks -/

section Table

variable [Fintype τ] {s s' : Table τ}

/-- The address of a block. -/
def Table.address (s : Table τ) (b : Nat) : Option Int := (s.heap b).map (·.address)

omit [DecidableEq τ] [Fintype τ] in
/-- A change of a block that keeps its address. -/
theorem address_update {heap : Nat → Option BlockData} {block b : Nat} {new : Option BlockData}
    (hnew : new.map (·.address) = (heap block).map (·.address)) :
    (Function.update heap block new b).map (·.address) = (heap b).map (·.address) := by
  by_cases hb : b = block
  · subst hb
    rw [Function.update_self, hnew]
  · rw [Function.update_of_ne hb]

/-- A block of the writer keeps its address. -/
theorem Inv.address_next (h : Inv s) {e : Event τ} (he : Enabled s e) (hnext : Disk.next s e = some s')
    {b : Nat} (hb : b ∈ s.own) (hb' : b ∈ s'.own) : s'.address b = s.address b := by
  -- a block that is not of the writer is changed
  have hother {block : Nat} (hblock : block ∉ s.own) (new : Option BlockData) :
      (Function.update s.heap block new b).map (·.address) = (s.heap b).map (·.address) := by
    rw [Function.update_of_ne]
    rintro rfl
    exact hblock hb
  cases e with
  | alloc =>
      obtain rfl := Option.some.inj hnext
      refine hother (fun hown => ?_) _
      exact Nat.lt_irrefl _ (h.fresh _ (h.own_isSome hown))
  | check sector fits =>
      obtain ⟨block, tries, hw, -⟩ := he
      simp only [Disk.next, hw, Option.some.injEq] at hnext
      subst hnext
      unfold Disk.check
      split <;> rfl
  | giveUp =>
      obtain ⟨block, tries, hw, -⟩ := he
      simp only [Disk.next, hw, Disk.giveUp, Option.bind_eq_bind, Option.bind_eq_some_iff] at hnext
      obtain ⟨data, -, hnext⟩ := hnext
      cases hnext
      exact hother (h.building block (by rw [hw]; rfl)).2.1 _
  | prepare =>
      obtain ⟨block, sector, hw⟩ := he
      simp only [Disk.next, hw, Option.some.injEq] at hnext
      subst hnext
      rfl
  | insert =>
      obtain ⟨block, sector, pos, hw⟩ := he
      simp only [Disk.next, hw, Disk.insert, Option.bind_eq_bind, Option.bind_eq_some_iff] at hnext
      obtain ⟨data, -, hnext⟩ := hnext
      cases hnext
      exact hother (h.building block (by rw [hw]; rfl)).2.1 _
  | setInitialized block =>
      simp only [Disk.next, Disk.setInitialized, Option.bind_eq_bind, Option.bind_eq_some_iff] at hnext
      obtain ⟨data, hdata, hnext⟩ := hnext
      cases hnext
      exact address_update (by rw [hdata]; rfl)
  | useOwn block =>
      obtain ⟨data, -, rfl⟩ := Option.map_eq_some_iff.mp hnext
      rfl
  | beginRemove block =>
      simp only [Disk.next, Disk.beginRemove, Option.bind_eq_bind, Option.bind_eq_some_iff] at hnext
      obtain ⟨data, -, hnext⟩ := hnext
      cases hsd : s.addrToBlock data.address with
      | none =>
          rw [hsd] at hnext
          cases hnext
          rfl
      | some sd =>
          simp only [hsd, Option.bind_eq_some_iff] at hnext
          obtain ⟨lastAddress, -, hnext⟩ := hnext
          split at hnext
          · cases hnext
          · obtain ⟨lastData, -, hnext⟩ := Option.bind_eq_some_iff.mp hnext
            cases hnext
            rfl
  | remove =>
      obtain ⟨block, address, currPos, lastAddress, hw⟩ := he
      simp only [Disk.next, hw, Disk.remove, Option.bind_eq_bind, Option.bind_eq_some_iff] at hnext
      obtain ⟨last, -, lastData, -, data, hdata, hnext⟩ := hnext
      cases hnext
      -- the block that is removed is not of the writer any more
      have hne : b ≠ block := by
        rintro rfl
        exact (h.nodup.mem_erase_iff.mp hb').1 rfl
      change (Function.update s.heap block _ b).map _ = _
      rw [Function.update_of_ne hne]
      rfl
  | get t random =>
      rw [Disk.next, Disk.getRandomBlock] at hnext
      split at hnext
      · cases hnext
        rfl
      · simp only [Option.bind_eq_bind, Option.bind_eq_some_iff] at hnext
        obtain ⟨address, -, sd, -, data, hdata, hnext⟩ := hnext
        split at hnext
        · cases hnext
          exact address_update (by rw [hdata]; rfl)
        · cases hnext
          rfl
  | useHeld t =>
      simp only [Disk.next, Option.bind_eq_some_iff, Option.map_eq_some_iff] at hnext
      obtain ⟨block, -, data, -, rfl⟩ := hnext
      rfl
  | release t =>
      rw [Disk.next, Option.bind_eq_some_iff] at hnext
      obtain ⟨block, hheld, hnext⟩ := hnext
      simp only [Disk.releaseBlock, Option.bind_eq_bind, Option.bind_eq_some_iff] at hnext
      obtain ⟨data, hdata, hnext⟩ := hnext
      cases hnext
      change ((if data.references = 1 then _ else _ : Nat → Option BlockData) b).map _ = _
      split
      · next hlast =>
        -- a block of the writer that a reader holds has another reference
        have hne : b ≠ block := by
          rintro rfl
          have hrefs := h.refs b data hdata
          have hpos := holders_pos hheld
          rw [if_pos hb] at hrefs
          omega
        rw [Function.update_of_ne hne]
        rfl
      · split
        · exact address_update (by rw [hdata]; rfl)
        · rfl

end Table

/-! ## The blocks that are written and not read back -/

def Pc.live : Pc → List Nat
  | .pushing block | .validating block => [block]
  | _ => []

def System.live (s : System τ) : List Nat := s.pc.live ++ s.inFlight

section Live

variable {c : Config} {s s' : System τ}

omit [DecidableEq τ] in
/-- They are blocks of the writer. -/
theorem System.Owned.live_subperm (h : s.Owned) : s.live.Subperm s.table.own := by
  refine List.Subperm.trans (List.Sublist.subperm ?_) h.own.subperm
  refine List.Sublist.append ?_ (List.Sublist.refl _)
  cases s.pc <;> first | exact List.Sublist.refl _ | exact List.nil_sublist _

omit [DecidableEq τ] in
/-- Outside the table, only a block that has been written is added. -/
theorem System.live_doWork {ok : Bool} (hnext : s.doWork c ok = some s')
    (hpc : ∀ block, s.pc = .writing block → ok = false) : s'.live.Subperm s.live := by
  unfold System.doWork at hnext
  unfold System.live
  split at hnext
  next hs =>
    obtain rfl := Option.some.inj hnext
    rw [hs]
    cases ok <;> exact List.Subperm.refl _
  next hs =>
    obtain rfl := Option.some.inj hnext
    rw [hs]
    dsimp only
    split <;> exact List.Subperm.refl _
  next block hs =>
    obtain ⟨data, -, rfl⟩ := Option.map_eq_some_iff.mp hnext
    rw [hs, hpc block hs]
    exact List.Subperm.refl _
  next block hs =>
    obtain ⟨data, -, rfl⟩ := Option.map_eq_some_iff.mp hnext
    rw [hs]
    exact (List.perm_append_singleton block s.inFlight).subperm
  next hs =>
    obtain rfl := Option.some.inj hnext
    rw [hs]
    cases ok <;> exact List.Subperm.refl _
  next hs =>
    rw [hs]
    split at hnext
    · obtain rfl := Option.some.inj hnext
      exact List.Subperm.refl _
    · next block rest hflight =>
      split at hnext
      · obtain rfl := Option.some.inj hnext
        rw [hflight]
        exact List.Subperm.refl _
      · obtain rfl := Option.some.inj hnext
        exact List.Subperm.refl _
  next block hs =>
    obtain ⟨data, -, rfl⟩ := Option.map_eq_some_iff.mp hnext
    rw [hs]
    exact (List.sublist_cons_self ..).subperm
  next hs =>
    rw [hs]
    split at hnext
    · obtain rfl := Option.some.inj hnext
      exact List.Subperm.refl _
    · next block rest hflight =>
      obtain rfl := Option.some.inj hnext
      rw [hflight]
      exact (List.sublist_cons_self ..).subperm
  next => cases hnext

omit [DecidableEq τ] in
/-- The steps of `GetUnusedBlock`, where blocks are written. -/
theorem System.live_getUnusedBlock (hdestructive : c.nonDestructive = false) {e : Event τ}
    (hpc : s.pc = .getting) (hnext : s.getUnusedBlock c e = some s') : s'.live = s.live := by
  unfold System.getUnusedBlock at hnext
  unfold System.live
  rw [hpc]
  split at hnext
  next hw =>
    obtain rfl := Option.some.inj hnext
    rw [hpc]
  next block tries sector fits hw =>
    split at hnext
    · obtain rfl := Option.some.inj hnext
      rw [hpc]
    · cases hnext
  next block tries hw =>
    split at hnext
    · obtain ⟨table, -, rfl⟩ := Option.map_eq_some_iff.mp hnext
      rfl
    · cases hnext
  next block sector hw =>
    obtain rfl := Option.some.inj hnext
    rw [hpc]
  next block sector pos hw =>
    obtain ⟨table, -, rfl⟩ := Option.map_eq_some_iff.mp hnext
    rw [if_neg (by rw [hdestructive]; exact Bool.false_ne_true)]
    rfl
  next => cases hnext

omit [DecidableEq τ] in
theorem System.live_removeBlock {e : Event τ} (hnext : s.removeBlock e = some s') : s'.live = s.live := by
  unfold System.removeBlock at hnext
  unfold System.live
  split at hnext
  next block giveUp b hpc hw =>
    split at hnext
    · obtain ⟨table, -, rfl⟩ := Option.map_eq_some_iff.mp hnext
      rw [hpc]
      split
      · rfl
      · cases giveUp <;> rfl
    · cases hnext
  next block giveUp b address currPos lastAddress hpc hw =>
    obtain ⟨table, -, rfl⟩ := Option.map_eq_some_iff.mp hnext
    rw [hpc]
    cases giveUp <;> rfl
  next => cases hnext

theorem System.live_read {e : Event τ} (hnext : s.read e = some s') : s'.live = s.live := by
  unfold System.read at hnext
  split at hnext
  · split at hnext
    · obtain ⟨table, -, rfl⟩ := Option.map_eq_some_iff.mp hnext
      rfl
    · cases hnext
  · obtain ⟨table, -, rfl⟩ := Option.map_eq_some_iff.mp hnext
    rfl
  · obtain ⟨table, -, rfl⟩ := Option.map_eq_some_iff.mp hnext
    rfl
  · cases hnext

/-- Where blocks are written, no step of the table adds one. -/
theorem System.live_table (hdestructive : c.nonDestructive = false) {e : Event τ}
    (hnext : s.next c (.table e) = some s') : s'.live = s.live := by
  unfold System.next at hnext
  split at hnext
  next hl => cases hl
  next e' hl =>
    obtain rfl : e = e' := Label.table.inj hl
    split at hnext
    · exact live_read hnext
    · exact live_read hnext
    · exact live_read hnext
    · exact live_removeBlock hnext
    · exact live_removeBlock hnext
    · split at hnext
      · next hpc => exact live_getUnusedBlock hdestructive hpc hnext
      · cases hnext

theorem System.table_getUnusedBlock {e : Event τ} (hnext : s.getUnusedBlock c e = some s') :
    Enabled s.table e ∧ Disk.next s.table e = some s'.table := by
  unfold System.getUnusedBlock at hnext
  split at hnext
  next hw =>
    obtain rfl := Option.some.inj hnext
    exact ⟨hw, rfl⟩
  next block tries sector fits hw =>
    split at hnext
    · next htries =>
      obtain rfl := Option.some.inj hnext
      exact ⟨⟨block, tries, hw, htries⟩, by simp only [Disk.next, hw]⟩
    · cases hnext
  next block tries hw =>
    split at hnext
    · next htries =>
      obtain ⟨table, htable, rfl⟩ := Option.map_eq_some_iff.mp hnext
      exact ⟨⟨block, tries, hw, htries⟩, by simp only [Disk.next, hw, htable]⟩
    · cases hnext
  next block sector hw =>
    obtain rfl := Option.some.inj hnext
    exact ⟨⟨block, sector, hw⟩, by simp only [Disk.next, hw]⟩
  next block sector pos hw =>
    obtain ⟨table, htable, hs'⟩ := Option.map_eq_some_iff.mp hnext
    refine ⟨⟨block, sector, pos, hw⟩, ?_⟩
    have htable' : s'.table = table := by
      rw [← hs']
      split <;> rfl
    simp only [Disk.next, hw, htable, htable']
  next => cases hnext

/-- A step of the threads on the table is that call. -/
theorem System.Owned.table_next (h : s.Owned) {e : Event τ} (hnext : s.next c (.table e) = some s') :
    Enabled s.table e ∧ Disk.next s.table e = some s'.table := by
  cases e with
  | get t random =>
      change (if (s.table.holding t).isNone = true then _ else _) = some s' at hnext
      split at hnext
      · next hnone =>
        obtain ⟨table, htable, rfl⟩ := Option.map_eq_some_iff.mp hnext
        exact ⟨Option.isNone_iff_eq_none.mp hnone, htable⟩
      · cases hnext
  | useHeld t =>
      obtain ⟨table, htable, rfl⟩ := Option.map_eq_some_iff.mp hnext
      obtain ⟨block, hheld, -⟩ := Option.bind_eq_some_iff.mp htable
      exact ⟨Option.isSome_iff_exists.mpr ⟨block, hheld⟩, htable⟩
  | release t =>
      obtain ⟨table, htable, rfl⟩ := Option.map_eq_some_iff.mp hnext
      obtain ⟨block, hheld, -⟩ := Option.bind_eq_some_iff.mp htable
      exact ⟨Option.isSome_iff_exists.mpr ⟨block, hheld⟩, htable⟩
  | beginRemove b =>
      change s.removeBlock _ = some s' at hnext
      unfold System.removeBlock at hnext
      split at hnext
      next block giveUp b' hpc hw hb =>
        obtain rfl := Event.beginRemove.inj hb
        split at hnext
        · next hblock =>
          subst hblock
          obtain ⟨table, htable, rfl⟩ := Option.map_eq_some_iff.mp hnext
          refine ⟨⟨hw, ?_⟩, by split <;> exact htable⟩
          have hown := h.own
          rw [hpc] at hown
          exact hown.subset (List.mem_cons_self ..)
        · cases hnext
      next hcon => cases hcon
      next => cases hnext
  | remove =>
      change s.removeBlock _ = some s' at hnext
      unfold System.removeBlock at hnext
      split at hnext
      next hcon => cases hcon
      next block' giveUp b address currPos lastAddress hpc hw _ =>
        obtain ⟨table, htable, rfl⟩ := Option.map_eq_some_iff.mp hnext
        exact ⟨⟨b, address, currPos, lastAddress, hw⟩, by simp only [Disk.next, hw, htable]⟩
      next => cases hnext
  | alloc | check _ _ | giveUp | prepare | insert | setInitialized _ | useOwn _ =>
      dsimp only [System.next] at hnext
      split at hnext
      · exact table_getUnusedBlock hnext
      · cases hnext

/-- A block of the writer keeps its address. -/
theorem System.Ok.address_next [Fintype τ] {l : Label τ} (h : s.Ok) (hnext : s.next c l = some s')
    {b : Nat} (hb : b ∈ s.table.own) (hb' : b ∈ s'.table.own) : s'.table.address b = s.table.address b := by
  cases l with
  | work ok => rw [(h.owned.doWork hnext).2]
  | table e =>
      obtain ⟨he, hcall⟩ := h.owned.table_next hnext
      exact (inv_of_reachable h.table).address_next he hcall hb hb'

end Live

/-! ## The passes of `ValidateBlockOnDisk` -/

section Passes

variable {sat : Sat} {b : BlockRead} {size : Nat}

/-- The errors of the first chunks are the wrong words of the first read blocks. -/
structure Passed (b : BlockRead) (size : Nat) (s : ReadState) (k : Nat) : Prop where
  le : k ≤ size / b.readBlockSize
  bytesRead : s.bytesRead = k * b.readBlockSize
  blocks : s.blocks = size / b.readBlockSize - k
  found : s.found = Nat.count (fun i => b.disk (64 * b.address + i) ≠ Sat.patternData b.pattern 0 i)
    (k * b.readBlockSize / 8)
  errorcount : s.errorcount ≤ 2 * s.found

theorem readChunk_errorcount (random : Nat) {s : ReadState} (h : s.errorcount ≤ 2 * s.found) :
    (readChunk sat b random s).errorcount ≤ 2 * (readChunk sat b random s).found := by
  obtain ⟨region, herrors, hfound⟩ : ∃ region : Mem × Nat,
      (readChunk sat b random s).errorcount = s.errorcount + region.2 + (if region.2 ≠ 0 then 1 else 0) ∧
        (readChunk sat b random s).found = s.found + region.2 := ⟨_, rfl, rfl⟩
  have hone : (if region.2 ≠ 0 then 1 else 0) ≤ region.2 := by split <;> omega
  omega

/-- **A pass.** -/
theorem Passed.step (htag : sat.tagMode = false) (hb : b.nonDestructive = false)
    (hread : 8 ∣ b.readBlockSize) (hdvd : b.readBlockSize ∣ size)
    (hplace : ∀ j < size / b.readBlockSize,
      InPlace b.pattern (j * b.readBlockSize, size - j * b.readBlockSize))
    {s : ReadState} {k : Nat} (h : Passed b size s k) (hblocks : s.blocks ≠ 0) (random : Nat) :
    Passed b size (readChunk sat b random s) (k + (random % s.blocks + 1)) := by
  have hcurrent : random % s.blocks + 1 ≤ s.blocks := Nat.mod_lt _ (by omega)
  have hle := h.le
  have hleft := h.blocks
  refine ⟨by omega, ?_, ?_, ?_, readChunk_errorcount random h.errorcount⟩
  · rw [show (readChunk sat b random s).bytesRead =
      s.bytesRead + (random % s.blocks + 1) * b.readBlockSize from rfl, h.bytesRead, ← Nat.add_mul]
  · rw [show (readChunk sat b random s).blocks = s.blocks - (random % s.blocks + 1) from rfl]
    omega
  · obtain ⟨w, hw⟩ := hread
    have hwords (m : Nat) : m * b.readBlockSize / 8 = m * w := by
      rw [hw, Nat.mul_left_comm, Nat.mul_div_cancel_left _ (by omega)]
    have hin : InPlace b.pattern (s.bytesRead, (random % s.blocks + 1) * b.readBlockSize) := by
      intro i hi
      rw [h.bytesRead]
      refine hplace k (by omega) i (lt_of_lt_of_le hi (Nat.div_le_div_right ?_))
      rw [← Nat.div_mul_cancel hdvd, ← Nat.sub_mul]
      exact Nat.mul_le_mul_right _ (by omega)
    rw [h.bytesRead] at hin
    rw [readChunk_found htag hb, h.found, h.bytesRead, chunkErrors_eq hin]
    dsimp only
    rw [hwords, hwords, hwords, Nat.add_mul k, Nat.count_add _ (k * w)]

/-- The passes find wrong words only, and all of them when they come to the end of the block. -/
theorem readPasses_found (htag : sat.tagMode = false) (hb : b.nonDestructive = false)
    (hread : 8 ∣ b.readBlockSize) (hdvd : b.readBlockSize ∣ size)
    (hplace : ∀ j < size / b.readBlockSize,
      InPlace b.pattern (j * b.readBlockSize, size - j * b.readBlockSize))
    (random : Nat → Nat) (passes : Nat) (buf : Mem) :
    let r := readPasses sat b random passes ⟨buf, 0, size / b.readBlockSize, 0, 0, []⟩
    r.found ≤ blockErrors b.disk b.address b.pattern size ∧ r.errorcount ≤ 2 * r.found ∧
      (r.blocks = 0 → r.found = blockErrors b.disk b.address b.pattern size) := by
  intro r
  have hpassed : ∃ k, Passed b size r k := by
    refine forUpTo_inv (fun _ s => ∃ k, Passed b size s k) ?_ ?_
    · exact ⟨0, Nat.zero_le _, (Nat.zero_mul _).symm, rfl, by simp, Nat.le_refl _⟩
    · rintro i - s ⟨k, hk⟩
      split
      · exact ⟨k, hk⟩
      · next hblocks => exact ⟨_, hk.step htag hb hread hdvd hplace hblocks (random i)⟩
  obtain ⟨k, hk⟩ := hpassed
  refine ⟨?_, hk.errorcount, fun hend => ?_⟩
  · rw [hk.found, blockErrors]
    refine Nat.count_monotone _ (Nat.div_le_div_right ?_)
    exact (Nat.mul_le_mul_right _ hk.le).trans (Nat.div_mul_le_self ..)
  · have hlast : k = size / b.readBlockSize := by
      have hle := hk.le
      have hblocks := hk.blocks
      omega
    rw [hk.found, hlast, Nat.div_mul_cancel hdvd, blockErrors]

end Passes

/-! ## The debt of a session -/

/-- The words of a block fill its sectors. -/
theorem Setup.Valid.words {c : Setup} (hc : c.Valid) :
    64 * c.parameters.numSectors = (c.writeBlockSize / 8 : Nat) := by
  obtain ⟨k, hk⟩ := hc.sector.trans hc.dvd
  have hsectors : c.parameters.numSectors = k := by
    change (c.writeBlockSize : Int).tdiv 512 = k
    rw [hk, Nat.cast_mul]
    exact Int.mul_tdiv_cancel_left _ (by decide)
  rw [hsectors, hk]
  omega

namespace Session

variable {c : Setup} {s s' : Session τ}

/-- The blocks on the disk, in words. -/
def layout (c : Setup) (s : Session τ) : Layout Nat Word64 where
  start b := 64 * ((s.system.table.address b).getD 0).toNat
  want b := Sat.patternData (s.pattern b) 0
  length := c.writeBlockSize / 8

def debt (c : Setup) (s : Session τ) : Nat := (s.layout c).debt s.disk s.system.live

def placement (s : Session τ) : Placement τ := ⟨s.system.table, s.segment, s.requested⟩

variable [Fintype τ]

structure Inv (c : Setup) (s : Session τ) : Prop where
  ok : s.system.Ok
  placement : Placement.Reachable c.parameters s.placement
  errorcount : s.errorcount ≤ 2 * s.found
  debt : c.config.nonDestructive = false → s.found + s.debt c ≤ s.lost
  quiet : c.config.nonDestructive = true → s.found = 0
  inPlace : c.config.nonDestructive = false → ∀ b ∈ s.system.live, c.InPlaceFrom (s.pattern b)

/-- The place of a live block. -/
theorem Inv.placed (hc : c.Valid) (h : Inv c s) {b : Nat} (hb : b ∈ s.system.table.own) :
    ∃ a pos, s.system.table.address b = some a ∧ s.system.table.addrToBlock a = some ⟨b, pos⟩ ∧
      c.parameters.Placed (s.requested a) a := by
  obtain ⟨data, pos, hdata, hsd⟩ := (inv_of_reachable h.ok.table).own b hb
  refine ⟨data.address, pos, by rw [Table.address, hdata]; rfl, hsd, ?_⟩
  exact (Placement.inv_of_reachable hc.parameters h.placement).placed _ (by
    change (s.system.table.addrToBlock data.address).isSome
    rw [hsd]
    rfl)

/-- Blocks of the writer lie apart. -/
theorem Inv.apart (hc : c.Valid) (h : Inv c s) {b b' : Nat} (hb : b ∈ s.system.table.own)
    (hb' : b' ∈ s.system.table.own) (hne : b ≠ b') : (s.layout c).Apart b b' := by
  obtain ⟨a, pos, haddress, hsd, hplaced⟩ := h.placed hc hb
  obtain ⟨a', pos', haddress', hsd', hplaced'⟩ := h.placed hc hb'
  have hne' : a ≠ a' := by
    rintro rfl
    rw [hsd] at hsd'
    cases hsd'
    exact hne rfl
  have hwords := hc.words
  have hnonneg := hplaced.nonneg
  have hnonneg' := hplaced'.nonneg
  have hstart : (s.layout c).start b = 64 * a.toNat := by
    change 64 * ((s.system.table.address b).getD 0).toNat = _
    rw [haddress, Option.getD_some]
  have hstart' : (s.layout c).start b' = 64 * a'.toNat := by
    change 64 * ((s.system.table.address b').getD 0).toNat = _
    rw [haddress', Option.getD_some]
  unfold Layout.Apart
  rw [hstart, hstart', show (s.layout c).length = c.writeBlockSize / 8 from rfl]
  rcases hc.parameters.disjoint hplaced hplaced' hne' with hle | hle
  · left
    omega
  · right
    omega

omit [DecidableEq τ] [Fintype τ] in
theorem wrong_eq {b : Nat} {a : Int} (h : s.system.table.address b = some a) (disk : Mem) :
    (s.layout c).wrong disk b = blockErrors disk a.toNat (s.pattern b) c.writeBlockSize := by
  simp only [Layout.wrong, layout, h, Option.getD_some, blockErrors]

/-! ### The steps -/

omit [Fintype τ] in
/-- The table of a step of the threads that is none of `GetUnusedBlock`. -/
theorem Inv.placement_other (h : Inv c s) {l : Disk.Label τ} {system : System τ}
    (hother : isOther s.system.pc l = true) (hnext : s.system.next c.config l = some system) :
    Placement.Reachable c.parameters ⟨system.table, s.segment, s.requests l⟩ := by
  cases l with
  | work ok =>
      rw [(h.ok.owned.doWork hnext).2]
      exact h.placement
  | table e =>
      obtain ⟨he, hcall⟩ := h.ok.owned.table_next hnext
      cases e with
      | alloc => cases hother
      | check sector fits => cases hother
      | insert =>
          obtain ⟨block, sector, pos, hw⟩ := he
          simp only [Disk.next, hw] at hcall
          have hrequests : s.requests (.table .insert) = Function.update s.requested sector s.segment := by
            simp only [requests, hw]
          rw [hrequests]
          exact h.placement.tail (.insert hw hcall)
      | giveUp => exact h.placement.tail (.other _ rfl he hcall)
      | prepare => exact h.placement.tail (.other _ rfl he hcall)
      | setInitialized block => exact h.placement.tail (.other _ rfl he hcall)
      | useOwn block => exact h.placement.tail (.other _ rfl he hcall)
      | beginRemove block => exact h.placement.tail (.other _ rfl he hcall)
      | remove => exact h.placement.tail (.other _ rfl he hcall)
      | get t random => exact h.placement.tail (.other _ rfl he hcall)
      | useHeld t => exact h.placement.tail (.other _ rfl he hcall)
      | release t => exact h.placement.tail (.other _ rfl he hcall)

/-- The wrong words of a live block after a step of the threads. -/
theorem Inv.wrong_congr (h : Inv c s) {l : Disk.Label τ} {system : System τ}
    (hnext : s.system.next c.config l = some system) (hsystem : s'.system = system) {b : Nat}
    (hb : b ∈ s.system.table.own) (hb' : b ∈ system.table.own) (hpattern : s'.pattern b = s.pattern b)
    (hdisk : ∀ a, (s.layout c).Covers b a → s'.disk a = s.disk a) :
    (s'.layout c).wrong s'.disk b = (s.layout c).wrong s.disk b := by
  have haddress : s'.system.table.address b = s.system.table.address b := by
    rw [hsystem]
    exact h.ok.address_next hnext hb hb'
  refine Layout.wrong_congr rfl ?_ ?_ hdisk
  · simp only [layout, haddress]
  · simp only [layout, hpattern]

/-- A step of the threads that does not write, and does not add a block. -/
theorem Inv.threads (h : Inv c s) {l : Disk.Label τ} {system : System τ}
    (hnext : s.system.next c.config l = some system)
    (hlive : c.config.nonDestructive = false → system.live.Subperm s.system.live)
    (hplacement : Placement.Reachable c.parameters s'.placement) (hsystem : s'.system = system)
    (hpattern : s'.pattern = s.pattern) (hdisk : s'.disk = s.disk) (herrors : s'.errorcount = s.errorcount)
    (hfound : s'.found = s.found) (hlost : s'.lost = s.lost) : Inv c s' := by
  have hok : system.Ok := h.ok.next hnext
  refine ⟨hsystem ▸ hok, hplacement, by rw [herrors, hfound]; exact h.errorcount, fun hdestructive => ?_,
    fun hquiet => hfound.trans (h.quiet hquiet), fun hdestructive b hb => ?_⟩
  rotate_left
  · rw [hpattern]
    rw [hsystem] at hb
    exact h.inPlace hdestructive b ((hlive hdestructive).subset hb)
  have hsub := hlive hdestructive
  have hdebt : s'.debt c = (s.layout c).debt s.disk system.live := by
    unfold Session.debt
    rw [hsystem]
    refine Layout.debt_congr fun b hb => ?_
    exact h.wrong_congr hnext hsystem (h.ok.owned.live_subperm.subset (hsub.subset hb))
      (hok.owned.live_subperm.subset hb) (by rw [hpattern]) fun a _ => by rw [hdisk]
  have hle : s'.debt c ≤ s.debt c := hdebt ▸ Layout.debt_le hsub
  have hold := h.debt hdestructive
  rw [hfound, hlost]
  omega

/-- A word is lost. -/
theorem Inv.lose (hc : c.Valid) (h : Inv c s) (a : Nat) (w : Word64) :
    Inv c { s with disk := Function.update s.disk a w, lost := s.lost + 1 } := by
  refine ⟨h.ok, h.placement, h.errorcount, fun hdestructive => ?_, h.quiet, h.inPlace⟩
  have hsub := h.ok.owned.live_subperm
  have hnodup : s.system.live.Nodup := by
    obtain ⟨l, hperm, hsublist⟩ := hsub
    exact hperm.nodup_iff.mp (hsublist.nodup (inv_of_reachable h.ok.table).nodup)
  have hle : (s.layout c).debt (Function.update s.disk a w) s.system.live ≤
      (s.layout c).debt s.disk s.system.live + 1 :=
    Layout.debt_update_le hnodup (fun b hb b' hb' => h.apart hc (hsub.subset hb) (hsub.subset hb')) a w
  have hold := h.debt hdestructive
  change s.found + (s.layout c).debt (Function.update s.disk a w) s.system.live ≤ s.lost + 1
  unfold Session.debt at hold
  omega

/-- The block that is being written is no live block. -/
theorem Inv.writing (h : Inv c s) {block : Nat} (hpc : s.system.pc = .writing block) :
    block ∈ s.system.table.own ∧ block ∉ s.system.live := by
  have hown := h.ok.owned.own
  rw [hpc] at hown
  have hnodup := hown.nodup_iff.mpr (inv_of_reachable h.ok.table).nodup
  refine ⟨hown.subset (List.mem_cons_self ..), ?_⟩
  rw [System.live, hpc]
  exact (List.nodup_cons.mp hnodup).1

/-- A write leaves the other blocks alone. -/
theorem Inv.wrong_write (hc : c.Valid) (h : Inv c s) {block : Nat} (hpc : s.system.pc = .writing block)
    {data : BlockData} (hdata : s.system.table.heap block = some data) {ok : Bool} {system : System τ}
    (hnext : s.system.next c.config (.work ok) = some system) (buf : Mem) {p : Pattern}
    (hsystem : s'.system = system) (hpattern : s'.pattern = Function.update s.pattern block p)
    (hdisk : s'.disk = writeBlock s.disk buf c.buffer data.address.toNat c.writeBlockSize) {b : Nat}
    (hb : b ∈ s.system.live) : (s'.layout c).wrong s'.disk b = (s.layout c).wrong s.disk b := by
  obtain ⟨hown, hlive⟩ := h.writing hpc
  have hne : b ≠ block := fun heq => hlive (heq ▸ hb)
  have hbown := h.ok.owned.live_subperm.subset hb
  refine h.wrong_congr hnext hsystem hbown ?_ ?_ fun a ha => ?_
  · rw [(h.ok.owned.doWork hnext).2]
    exact hbown
  · rw [hpattern, Function.update_of_ne hne]
  · have hnot := (h.apart hc hbown hown hne).covers ha
    have haddress : (s.layout c).start block = 64 * data.address.toNat := by
      simp only [layout, Table.address, hdata, Option.map_some, Option.getD_some]
    rw [hdisk, writeBlock]
    refine writeWords_of_notMem fun hmem => hnot ?_
    rw [Layout.Covers, haddress]
    exact hmem

omit [DecidableEq τ] [Fintype τ] in
/-- A block that a page fills, or a pattern that ends in its first half, holds its pattern. -/
theorem fillBuffer_units (hc : c.Valid) (buf pages : Mem) (page : Option (Nat × Pattern)) (random : Pattern)
    (hsound : Label.Sound (τ := τ) c (.write page pages random)) :
    let w := fillBuffer buf pages c.buffer c.writeBlockSize page random
    (∀ i < c.writeBlockSize / 4, unitOf w.1 (2 * c.buffer + i) = w.2.pattern i) ∧ c.InPlaceFrom w.2 := by
  have hunit {i : Nat} (hi : i < c.writeBlockSize / 4) :=
    unitOf_fillBuffer buf pages c.buffer (hc.sector.trans hc.dvd) page random hi
  cases page with
  | none =>
      obtain ⟨hzero, hplace⟩ := hsound
      refine ⟨fun i hi => (hunit hi).trans ?_, hplace⟩
      change (if i < c.writeBlockSize / 8 then random.pattern i else 0) = random.pattern i
      split
      · rfl
      · next hge => exact (hzero i (by omega) hi).symm
  | some page =>
      obtain ⟨hpage, hplace⟩ := hsound
      have hlength := hc.length
      exact ⟨fun i hi => (hunit hi).trans (hpage i (by omega)), hplace⟩

/-- `WriteBlockToDisk` -/
theorem Inv.write (hc : c.Valid) (h : Inv c s) {page : Option (Nat × Pattern)} {pages : Mem}
    {random : Pattern} (hsound : Label.Sound (τ := τ) c (.write page pages random))
    (hnext : s.next c (.write page pages random) = some s') : Inv c s' := by
  change s.writeStep c page pages random true id = some s' at hnext
  unfold writeStep at hnext
  split at hnext
  · next block hpc =>
    split at hnext
    · cases hnext
    · next data hdata =>
      obtain ⟨system, hsystem, rfl⟩ := Option.map_eq_some_iff.mp hnext
      obtain ⟨-, hblock⟩ := h.writing hpc
      have hok : system.Ok := h.ok.next hsystem
      have htable := (h.ok.owned.doWork hsystem).2
      have hlive : system.live = block :: s.system.live := by
        simp only [System.next, System.doWork, hpc, hdata, Option.map_some, if_true] at hsystem
        obtain rfl := Option.some.inj hsystem
        rw [System.live, System.live, hpc]
        rfl
      obtain ⟨hunits, hplace⟩ := fillBuffer_units hc s.buf pages page random hsound
      refine ⟨hok, ?_, h.errorcount, fun hdestructive => ?_, h.quiet, fun hdestructive b hb => ?_⟩
      · change Placement.Reachable c.parameters ⟨system.table, s.segment, s.requested⟩
        rw [htable]
        exact h.placement
      · have hold := h.debt hdestructive
        rw [Session.debt, hlive, Layout.debt_cons,
          Layout.debt_congr fun b hb => h.wrong_write hc hpc hdata hsystem _ rfl rfl rfl hb]
        rw [wrong_eq (a := data.address)]
        · dsimp only
          rw [Function.update_self, id, blockErrors_writeBlock (hc.sector.trans hc.dvd) hunits, Nat.zero_add]
          exact hold
        · change system.table.address block = _
          rw [htable, Table.address, hdata]
          rfl
      · change b ∈ system.live at hb
        rw [hlive] at hb
        obtain rfl | hold := List.mem_cons.mp hb
        · dsimp only
          rw [Function.update_self]
          exact hplace
        · dsimp only
          rw [Function.update_of_ne (by rintro rfl; exact hblock hold)]
          exact h.inPlace hdestructive b hold
  · cases hnext

/-- `WriteBlockToDisk` with a write that fails. -/
theorem Inv.writeFails (hc : c.Valid) (h : Inv c s) {page : Option (Nat × Pattern)} {pages : Mem}
    {random : Pattern} {words : Nat → Word64} (hnext : s.next c (.writeFails page pages random words) = some s') :
    Inv c s' := by
  change s.writeStep c page pages random false (fun _ a => words (a - c.buffer)) = some s' at hnext
  unfold writeStep at hnext
  split at hnext
  · next block hpc =>
    split at hnext
    · cases hnext
    · next data hdata =>
      obtain ⟨system, hsystem, rfl⟩ := Option.map_eq_some_iff.mp hnext
      obtain ⟨-, hblock⟩ := h.writing hpc
      have htable := (h.ok.owned.doWork hsystem).2
      have hlive : system.live = s.system.live := by
        simp only [System.next, System.doWork, hpc, hdata, Option.map_some, Bool.false_eq_true,
          if_false] at hsystem
        obtain rfl := Option.some.inj hsystem
        rw [System.live, System.live, hpc]
        rfl
      refine ⟨h.ok.next hsystem, ?_, h.errorcount, fun hdestructive => ?_, h.quiet,
        fun hdestructive b hb => ?_⟩
      · change Placement.Reachable c.parameters ⟨system.table, s.segment, s.requested⟩
        rw [htable]
        exact h.placement
      · have hold := h.debt hdestructive
        rw [Session.debt, hlive, Layout.debt_congr fun b hb =>
          h.wrong_write hc hpc hdata hsystem (fun a => words (a - c.buffer)) rfl rfl rfl hb]
        exact hold
      · change b ∈ system.live at hb
        rw [hlive] at hb
        dsimp only
        rw [Function.update_of_ne (by rintro rfl; exact hblock hb)]
        exact h.inPlace hdestructive b hb
  · cases hnext

omit [DecidableEq τ] [Fintype τ] in
/-- Nothing is compared where nothing is written. -/
theorem readPasses_quiet {sat : Sat} {b : BlockRead} (hb : b.nonDestructive = true) (random : Nat → Nat)
    (passes : Nat) (r : ReadState) (hfound : r.found = 0) (herrors : r.errorcount = 0) :
    (readPasses sat b random passes r).found = 0 ∧ (readPasses sat b random passes r).errorcount = 0 := by
  refine forUpTo_inv (fun _ (r : ReadState) => r.found = 0 ∧ r.errorcount = 0) ⟨hfound, herrors⟩ ?_
  rintro i - r ⟨hfound, herrors⟩
  split
  · exact ⟨hfound, herrors⟩
  · simp [readChunk, hb, hfound, herrors]

omit [Fintype τ] in
/-- What the passes have found of a live block. -/
theorem Inv.passes (hc : c.Valid) (h : Inv c s) {block : Nat} (hlive : block ∈ s.system.live)
    {data : BlockData} (hdata : s.system.table.heap block = some data) (random : Nat → Nat) (n : Nat) :
    let r := s.passes c block data random n
    r.errorcount ≤ 2 * r.found ∧
      (c.config.nonDestructive = false → r.found ≤ (s.layout c).wrong s.disk block) ∧
      (c.config.nonDestructive = true → r.found = 0) := by
  intro r
  cases hdestructive : c.config.nonDestructive with
  | true =>
      have hquiet : r.found = 0 ∧ r.errorcount = 0 := readPasses_quiet hdestructive random n
        ⟨s.buf, 0, c.writeBlockSize / c.readBlockSize, 0, 0, []⟩ rfl rfl
      obtain ⟨hfound, herrors⟩ := hquiet
      refine ⟨?_, nofun, fun _ => hfound⟩
      rw [show r.errorcount = 0 from herrors]
      exact Nat.zero_le _
  | false =>
      obtain ⟨hfound, herrors, -⟩ := readPasses_found hc.untagged (b := s.reading c block data) hdestructive
        ((show 8 ∣ 512 by decide).trans hc.sector) hc.dvd (h.inPlace hdestructive block hlive) random n s.buf
      refine ⟨herrors, fun _ => ?_, nofun⟩
      rw [wrong_eq (a := data.address) (by rw [Table.address, hdata]; rfl)]
      exact hfound

/-- `ValidateBlockOnDisk` -/
theorem Inv.validate (hc : c.Valid) (h : Inv c s) {random : Nat → Nat} {passes : Nat}
    (hnext : s.next c (.validate random passes) = some s') : Inv c s' := by
  change s.validateStep c random passes = some s' at hnext
  unfold validateStep at hnext
  split at hnext
  · next block hpc =>
    split at hnext
    · cases hnext
    · next data hdata =>
      obtain ⟨system, hsystem, rfl⟩ := Option.map_eq_some_iff.mp hnext
      have htable := (h.ok.owned.doWork hsystem).2
      have hlive : s.system.live = block :: system.live := by
        simp only [System.next, System.doWork, hpc, hdata, Option.map_some] at hsystem
        obtain rfl := Option.some.inj hsystem
        rw [System.live, System.live, hpc]
        rfl
      have hmem : block ∈ s.system.live := hlive ▸ List.mem_cons_self ..
      have hrest {b : Nat} (hb : b ∈ system.live) : b ∈ s.system.live := hlive ▸ List.mem_cons_of_mem _ hb
      obtain ⟨herrors, hfound, hquiet⟩ := h.passes hc hmem hdata random passes
      have hcount := h.errorcount
      refine ⟨h.ok.next hsystem, ?_, by dsimp only; omega, fun hdestructive => ?_,
        fun hnon => by dsimp only; rw [h.quiet hnon, hquiet hnon], fun hdestructive b hb =>
          h.inPlace hdestructive b (hrest hb)⟩
      · change Placement.Reachable c.parameters ⟨system.table, s.segment, s.requested⟩
        rw [htable]
        exact h.placement
      · have hold := h.debt hdestructive
        have hwrong := hfound hdestructive
        rw [Session.debt, hlive, Layout.debt_cons] at hold
        have hsame : (layout c s).debt s.disk system.live = Session.debt c { s with system := system } := by
          refine (Layout.debt_congr fun b hb => ?_).symm
          have hown := h.ok.owned.live_subperm.subset (hrest hb)
          exact h.wrong_congr hsystem rfl hown (htable ▸ hown) rfl fun _ _ => rfl
        rw [hsame] at hold
        change s.found + _ + Session.debt c { s with system := system } ≤ s.lost
        omega
  · cases hnext

/-- **A step of a session.** -/
theorem Inv.next (hc : c.Valid) (h : Inv c s) {l : Session.Label τ} (hsound : l.Sound c)
    (hnext : s.next c l = some s') : Inv c s' := by
  cases l with
  | request segment =>
      rw [Session.next] at hnext
      split at hnext
      · next hsegment =>
        obtain ⟨system, hsystem, rfl⟩ := Option.map_eq_some_iff.mp hnext
        obtain ⟨he, hcall⟩ := h.ok.owned.table_next hsystem
        have hstep := h.placement.tail (.request segment hsegment he)
        refine h.threads hsystem (fun hdestructive => ?_) ?_ rfl rfl rfl rfl rfl rfl
        · rw [System.live_table hdestructive hsystem]
        · change Placement.Reachable c.parameters ⟨system.table, segment, s.requested⟩
          rw [← Option.some.inj hcall]
          exact hstep
      · cases hnext
  | tryRandom random =>
      obtain ⟨system, hsystem, rfl⟩ := Option.map_eq_some_iff.mp hnext
      obtain ⟨he, hcall⟩ := h.ok.owned.table_next hsystem
      refine h.threads hsystem (fun hdestructive => ?_) ?_ rfl rfl rfl rfl rfl rfl
      · rw [System.live_table hdestructive hsystem]
      · exact h.placement.tail (.tryRandom random he hcall)
  | write page pages random => exact h.write hc hsound hnext
  | writeFails page pages random words => exact h.writeFails hc hnext
  | validate random n => exact h.validate hc hnext
  | lose a w =>
      obtain rfl := Option.some.inj hnext
      exact h.lose hc a w
  | other l =>
      rw [Session.next] at hnext
      split at hnext
      · next hother =>
        obtain ⟨system, hsystem, rfl⟩ := Option.map_eq_some_iff.mp hnext
        refine h.threads hsystem (fun hdestructive => ?_) (h.placement_other hother hsystem) rfl rfl rfl rfl
          rfl rfl
        cases l with
        | work ok =>
            refine System.live_doWork hsystem fun block hpc => ?_
            rw [hpc] at hother
            cases hother
        | table e => rw [System.live_table hdestructive hsystem]
      · cases hnext

omit [Fintype τ] in
theorem inv_initial (c : Setup) (disk buf : Mem) : Inv c (Session.initial τ disk buf) where
  ok := System.ok_initial
  placement := .refl
  errorcount := Nat.le_refl _
  debt _ := Nat.le_refl _
  quiet _ := rfl
  inPlace _ _ hb := by cases hb

theorem Reachable.inv (hc : c.Valid) (h : Session.Reachable c s) : Inv c s := by
  obtain ⟨disk, buf, hsteps⟩ := h
  induction hsteps with
  | refl => exact inv_initial c disk buf
  | tail _ hstep ih =>
      obtain ⟨l, hsound, hnext⟩ := hstep
      exact ih.next hc hsound hnext

omit [Fintype τ] in
theorem Reachable.run (h : Session.Reachable c s) {labels : List (Session.Label τ)}
    (hsound : ∀ l ∈ labels, l.Sound c) (hrun : s.run c labels = some s') : Session.Reachable c s' := by
  induction labels generalizing s with
  | nil =>
      obtain rfl := Option.some.inj hrun
      exact h
  | cons l labels ih =>
      obtain ⟨t, hnext, hrest⟩ := Option.bind_eq_some_iff.mp hrun
      obtain ⟨hl, hsound⟩ := List.forall_mem_cons.mp hsound
      obtain ⟨disk, buf, hsteps⟩ := h
      exact ih ⟨disk, buf, hsteps.tail ⟨l, hl, hnext⟩⟩ hsound hrest

end Session

/-- **The verdicts of a session.** Where blocks are written, the errors found and the words that are wrong in
the blocks not read back are together never more than the words that the disk has lost; a block that is read
to its end gives exactly the words in which it differs from its pattern. Where nothing is written, no
errors are found. -/
theorem disk_verdict {τ : Type} [DecidableEq τ] [Fintype τ] {c : Setup} (hc : c.Valid) {s : Session τ}
    (h : Session.Reachable c s) :
    s.errorcount ≤ 2 * s.found ∧
    (c.config.nonDestructive = true → s.found = 0) ∧
    (c.config.nonDestructive = false → s.found + s.debt c ≤ s.lost ∧
      ∀ block data, s.system.pc = .validating block → s.system.table.heap block = some data →
        ∀ random n, (s.passes c block data random n).blocks = 0 → (s.passes c block data random n).found =
          blockErrors s.disk data.address.toNat (s.pattern block) c.writeBlockSize) := by
  have hinv := Session.Reachable.inv hc h
  refine ⟨hinv.errorcount, hinv.quiet, fun hdestructive => ⟨hinv.debt hdestructive, ?_⟩⟩
  intro block data hpc _ random n hend
  have hlive : block ∈ s.system.live := by
    rw [System.live, hpc]
    exact List.mem_cons_self ..
  exact (readPasses_found hc.untagged (b := s.reading c block data) hdestructive
    ((show 8 ∣ 512 by decide).trans hc.sector) hc.dvd (hinv.inPlace hdestructive block hlive) random n
    s.buf).2.2 hend

/-! ## A session with a lost word -/

/-- Blocks of one sector on a device of a hundred. -/
def smallSetup : Setup := ⟨⟨false, 4⟩, .small 1 0, 100, -1, 512, 512, 0⟩

/-- A block of ones comes to sector 3, and loses a word before it is read. -/
def lossLabels : List (Session.Label (Fin 1)) :=
  [.other (.work true), .other (.work true), .request 0, .tryRandom 3, .other (.table .prepare),
    .other (.table .insert), .write (some (0, .ones)) (fun _ => BitVec.allOnes 64) .ones,
    .other (.work true), .other (.work false), .other (.work true), .other (.work true), .lose 197 0,
    .validate (fun _ => 0) 1]

theorem smallSetup_valid : smallSetup.Valid where
  parameters := ⟨by decide, by decide, by decide, by decide, Or.inl rfl⟩
  sector := ⟨1, rfl⟩
  dvd := ⟨1, rfl⟩
  length := by decide
  untagged := rfl

theorem disk_verdict_loss : ∃ s,
    (Session.initial (Fin 1) (fun _ => 0) fun _ => 0).run smallSetup lossLabels = some s ∧ s.lost = 1 ∧
      s.found + s.debt smallSetup ≤ 1 := by
  have hrun : (Session.initial (Fin 1) (fun _ => 0) fun _ => 0).run smallSetup lossLabels = some _ := rfl
  have hwrite : Session.Label.Sound (τ := Fin 1) smallSetup
      (.write (some (0, .ones)) (fun _ => BitVec.allOnes 64) .ones) := by
    refine ⟨fun u _ => ?_, fun j _ i _ => ?_⟩
    · rw [Pattern.ones_pattern]
      exact Sat.unitOf_allOnes _
    · simp only [Sat.patternData, Pattern.ones_pattern]
  have hsound : ∀ l ∈ lossLabels, Session.Label.Sound smallSetup l := by
    simp only [lossLabels, List.forall_mem_cons]
    exact ⟨trivial, trivial, trivial, trivial, trivial, trivial, hwrite, trivial, trivial, trivial, trivial,
      trivial, trivial, List.forall_mem_nil _⟩
  have hreachable := Session.Reachable.run ⟨_, _, .refl⟩ hsound hrun
  exact ⟨_, hrun, rfl, ((disk_verdict smallSetup_valid hreachable).2.2 rfl).1⟩

end StressAppTest.Disk
