import Mathlib.Data.Fintype.Card
import StressAppTest.Disk.BlockTable

/-!
# The invariant of the disk block table

The vector and the map of the table are inverse to each other, and the blocks in the map are those
the writer has got and not removed. The counter of a block is the number of its holders, with the
table as one of them, and an object exists as long as its counter is positive or
`GetUnusedBlock` is still building it. Every operation of the threads keeps this, and finds the
objects it uses.
-/

namespace StressAppTest.Disk

variable {τ : Type} [Fintype τ]

/-- The readers that hold a block. -/
def holders (s : Table τ) (block : Nat) : Nat := (Finset.univ.filter fun t => s.holding t = some block).card

/-- The block that `GetUnusedBlock` has not inserted yet. -/
def Writer.building : Writer → Option Nat
  | .searching block _ | .found block _ | .inserting block _ _ => some block
  | _ => none

/-- What the writer has read without the lock is still so. -/
def WriterOk (s : Table τ) : Prop :=
  match s.writer with
  | .idle | .searching _ _ => True
  | .found _ sector => s.addrToBlock sector = none
  | .inserting _ sector pos => s.addrToBlock sector = none ∧ pos = s.size
  | .removing block address currPos lastAddress => block ∈ s.own ∧
      s.addrToBlock address = some ⟨block, currPos⟩ ∧ s.posToAddr[s.size - 1]? = some lastAddress

structure Inv (s : Table τ) : Prop where
  index : SlotIndex s.posToAddr s.size fun a => (s.addrToBlock a).map (·.pos)
  block : ∀ a sd, s.addrToBlock a = some sd →
    sd.block ∈ s.own ∧ ∃ data, s.heap sd.block = some data ∧ data.address = a
  own : ∀ b ∈ s.own, ∃ data pos, s.heap b = some data ∧ s.addrToBlock data.address = some ⟨b, pos⟩
  nodup : s.own.Nodup
  refs : ∀ b data, s.heap b = some data →
    data.references = (if b ∈ s.own then 1 else 0) + holders s b
  held : ∀ t b, s.holding t = some b → (s.heap b).isSome
  alive : ∀ b, (s.heap b).isSome → s.writer.building = some b ∨ b ∈ s.own ∨ 0 < holders s b
  fresh : ∀ b, (s.heap b).isSome → b < s.fresh
  building : ∀ b, s.writer.building = some b → (s.heap b).isSome ∧ b ∉ s.own ∧ holders s b = 0
  writerOk : WriterOk s

theorem inv_initial : Inv (initial τ) where
  index := SlotIndex.empty _
  block := nofun
  own := nofun
  nodup := List.nodup_nil
  refs := nofun
  held := nofun
  alive := nofun
  fresh := nofun
  building := nofun
  writerOk := trivial

section Lemmas

variable {s : Table τ}

theorem Inv.own_isSome (h : Inv s) {b : Nat} (hb : b ∈ s.own) : (s.heap b).isSome := by
  obtain ⟨data, pos, hdata, -⟩ := h.own b hb
  rw [hdata]
  rfl

theorem Inv.not_own_of_none (h : Inv s) {b : Nat} (hb : s.heap b = none) : b ∉ s.own := by
  intro hmem
  have hsome := h.own_isSome hmem
  rw [hb] at hsome
  cases hsome

theorem holders_eq_zero {b : Nat} (h : ∀ t, s.holding t ≠ some b) : holders s b = 0 := by
  rw [holders, Finset.card_eq_zero, Finset.filter_eq_empty_iff]
  exact fun t _ => h t

theorem Inv.holders_of_none (h : Inv s) {b : Nat} (hb : s.heap b = none) : holders s b = 0 := by
  apply holders_eq_zero
  intro t ht
  have hsome := h.held t b ht
  rw [hb] at hsome
  cases hsome

theorem holders_pos {t : τ} {b : Nat} (ht : s.holding t = some b) : 0 < holders s b :=
  Finset.card_pos.mpr ⟨t, by simpa using ht⟩

end Lemmas

/-- A change of the writer alone. -/
theorem Inv.setWriter {s : Table τ} (h : Inv s) {w : Writer} (hbuilding : w.building = s.writer.building)
    (hok : WriterOk { s with writer := w }) : Inv { s with writer := w } :=
  { h with
    alive := fun b hb => by
      have halive := h.alive b hb
      rw [← hbuilding] at halive
      exact halive
    building := fun b hb => h.building b (hbuilding ▸ hb)
    writerOk := hok }

/-! ## `GetUnusedBlock` -/

theorem Inv.alloc {s : Table τ} (h : Inv s) (hidle : s.writer = .idle) : Inv (alloc s) := by
  have hnone : s.heap s.fresh = none := by
    by_contra hcon
    exact absurd (h.fresh s.fresh (Option.isSome_iff_ne_none.mpr hcon)) (Nat.lt_irrefl _)
  have hother {b : Nat} (hb : (s.heap b).isSome) : (Disk.alloc s).heap b = s.heap b :=
    Function.update_of_ne (Nat.ne_of_lt (h.fresh b hb)) _ _
  refine ⟨h.index, ?_, ?_, h.nodup, ?_, ?_, ?_, ?_, ?_, trivial⟩
  · intro a sd hsd
    obtain ⟨hown, data, hdata, haddr⟩ := h.block a sd hsd
    exact ⟨hown, data, (hother (by rw [hdata]; rfl)).trans hdata, haddr⟩
  · intro b hb
    obtain ⟨data, pos, hdata, haddr⟩ := h.own b hb
    exact ⟨data, pos, (hother (by rw [hdata]; rfl)).trans hdata, haddr⟩
  · intro b data hdata
    by_cases hb : b = s.fresh
    · subst hb
      have hnew : (Disk.alloc s).heap s.fresh = some ⟨0, 0, false⟩ := Function.update_self _ _ _
      rw [hnew, Option.some.injEq] at hdata
      have hown : s.fresh ∉ (Disk.alloc s).own := h.not_own_of_none hnone
      have hholders : holders (Disk.alloc s) s.fresh = 0 := h.holders_of_none hnone
      rw [← hdata, if_neg hown, hholders]
      rfl
    · have hold : s.heap b = some data := (Function.update_of_ne hb _ _).symm.trans hdata
      exact h.refs b data hold
  · intro t b ht
    have hsome := h.held t b ht
    rw [hother hsome]
    exact hsome
  · intro b hb
    by_cases hfresh : b = s.fresh
    · subst hfresh
      exact Or.inl rfl
    · have hold : (s.heap b).isSome := by
        rwa [show (Disk.alloc s).heap b = s.heap b from Function.update_of_ne hfresh _ _] at hb
      rcases h.alive b hold with hbuild | halive
      · rw [hidle] at hbuild
        cases hbuild
      · exact Or.inr halive
  · intro b hb
    by_cases hfresh : b = s.fresh
    · rw [hfresh]
      exact Nat.lt_succ_self _
    · rw [show (Disk.alloc s).heap b = s.heap b from Function.update_of_ne hfresh _ _] at hb
      exact Nat.lt_succ_of_lt (h.fresh b hb)
  · intro b hb
    have hbfresh : s.fresh = b := Option.some.inj hb
    subst hbfresh
    have hnew : (Disk.alloc s).heap s.fresh = some ⟨0, 0, false⟩ := Function.update_self _ _ _
    exact ⟨by rw [hnew]; rfl, h.not_own_of_none hnone, h.holders_of_none hnone⟩

theorem Inv.check {s : Table τ} (h : Inv s) {block tries : Nat} (hw : s.writer = .searching block tries)
    (sector : Int) (fits : Bool) : Inv (check s block tries sector fits) := by
  rw [Disk.check]
  split
  · next hfree =>
    refine h.setWriter (by rw [hw]; rfl) ?_
    rw [Bool.and_eq_true, Option.isNone_iff_eq_none] at hfree
    exact hfree.2
  · exact h.setWriter (by rw [hw]; rfl) trivial

/-- An object that nobody but its builder knows is deleted. -/
theorem Inv.giveUp {s : Table τ} (h : Inv s) {block tries : Nat}
    (hw : s.writer = .searching block tries) : ∃ s', giveUp s block = some s' ∧ Inv s' := by
  obtain ⟨hsome, hown, hholders⟩ := h.building block (by rw [hw]; rfl)
  obtain ⟨data, hdata⟩ := Option.isSome_iff_exists.mp hsome
  refine ⟨_, by rw [Disk.giveUp, hdata]; rfl, ?_⟩
  have hne {b : Nat} (hb : b ∈ s.own) : b ≠ block := fun heq => hown (heq ▸ hb)
  refine ⟨h.index, ?_, ?_, h.nodup, ?_, ?_, ?_, ?_, nofun, trivial⟩
  · intro a sd hsd
    obtain ⟨hmem, data, hdata, haddr⟩ := h.block a sd hsd
    exact ⟨hmem, data, (Function.update_of_ne (hne hmem) _ _).trans hdata, haddr⟩
  · intro b hb
    obtain ⟨data, pos, hdata, haddr⟩ := h.own b hb
    exact ⟨data, pos, (Function.update_of_ne (hne hb) _ _).trans hdata, haddr⟩
  · intro b data hdata
    have hb : b ≠ block := by
      rintro rfl
      simp at hdata
    exact h.refs b data (by simpa [Function.update_of_ne hb] using hdata)
  · intro t b ht
    have hb : b ≠ block := by
      rintro rfl
      have hpos := holders_pos ht
      change 0 < holders s b at hpos
      omega
    simpa [Function.update_of_ne hb] using h.held t b ht
  · intro b hb
    have hne : b ≠ block := by
      rintro rfl
      simp at hb
    rcases h.alive b (by simpa [Function.update_of_ne hne] using hb) with hbuild | halive
    · rw [hw] at hbuild
      exact absurd (Option.some.inj hbuild).symm hne
    · exact Or.inr halive
  · intro b hb
    have hne : b ≠ block := by
      rintro rfl
      simp at hb
    exact h.fresh b (by simpa [Function.update_of_ne hne] using hb)

theorem map_pos_update (f : Int → Option StorageData) (a : Int) (v : Option StorageData) :
    (fun x => (Function.update f a v x).map (·.pos)) =
      Function.update (fun x => (f x).map (·.pos)) a (v.map (·.pos)) := by
  funext x
  by_cases hx : x = a
  · subst hx
    simp
  · simp [Function.update_of_ne hx]

/-- The part of the invariant that counts the holders of the blocks. -/
structure Counted (s : Table τ) : Prop where
  refs : ∀ b data, s.heap b = some data →
    data.references = (if b ∈ s.own then 1 else 0) + holders s b
  held : ∀ t b, s.holding t = some b → (s.heap b).isSome
  alive : ∀ b, (s.heap b).isSome → s.writer.building = some b ∨ b ∈ s.own ∨ 0 < holders s b
  fresh : ∀ b, (s.heap b).isSome → b < s.fresh

/-- **One block changes**, and nothing is different for the others. -/
theorem Inv.counted {s s' : Table τ} (h : Inv s) {block : Nat} {v : Option BlockData}
    (hheap : s'.heap = Function.update s.heap block v) (hnew : s'.fresh = s.fresh)
    (hown : ∀ b, b ≠ block → (b ∈ s'.own ↔ b ∈ s.own))
    (hholders : ∀ b, b ≠ block → holders s' b = holders s b)
    (hbuilding : ∀ b, b ≠ block → s.writer.building = some b → s'.writer.building = some b)
    (hheld : ∀ t b, b ≠ block → s'.holding t = some b → (s.heap b).isSome)
    (hrefs : ∀ data, v = some data →
      data.references = (if block ∈ s'.own then 1 else 0) + holders s' block)
    (hheld' : ∀ t, s'.holding t = some block → v.isSome)
    (halive : v.isSome → s'.writer.building = some block ∨ block ∈ s'.own ∨ 0 < holders s' block)
    (hfresh : v.isSome → block < s.fresh) : Counted s' := by
  have hself : s'.heap block = v := by rw [hheap, Function.update_self]
  have hother {b : Nat} (hb : b ≠ block) : s'.heap b = s.heap b := by
    rw [hheap, Function.update_of_ne hb]
  constructor
  · intro b data hdata
    by_cases hb : b = block
    · subst hb
      exact hrefs data (hself.symm.trans hdata)
    · rw [hother hb] at hdata
      rw [h.refs b data hdata, hholders b hb, if_congr (hown b hb) rfl rfl]
  · intro t b ht
    by_cases hb : b = block
    · subst hb
      rw [hself]
      exact hheld' t ht
    · rw [hother hb]
      exact hheld t b hb ht
  · intro b hsome
    by_cases hb : b = block
    · subst hb
      rw [hself] at hsome
      exact halive hsome
    · rw [hother hb] at hsome
      rw [hown b hb, hholders b hb]
      exact (h.alive b hsome).imp_left (hbuilding b hb)
  · intro b hsome
    rw [hnew]
    by_cases hb : b = block
    · subst hb
      rw [hself] at hsome
      exact hfresh hsome
    · rw [hother hb] at hsome
      exact h.fresh b hsome

theorem Inv.insert {s : Table τ} (h : Inv s) {block pos : Nat} {sector : Int}
    (hw : s.writer = .inserting block sector pos) :
    ∃ s', insert s block sector pos = some s' ∧ Inv s' := by
  obtain ⟨hsome, hown, hholders⟩ := h.building block (by rw [hw]; rfl)
  obtain ⟨data, hdata⟩ := Option.isSome_iff_exists.mp hsome
  obtain ⟨hfree, rfl⟩ : s.addrToBlock sector = none ∧ pos = s.size := by
    have hok := h.writerOk
    rw [WriterOk, hw] at hok
    exact hok
  have hrefs := h.refs block data hdata
  rw [if_neg hown, hholders] at hrefs
  refine ⟨_, by rw [Disk.insert, hdata]; rfl, ?_⟩
  have hne {b : Nat} (hb : b ∈ s.own) : b ≠ block := fun heq => hown (heq ▸ hb)
  have hcounted : Counted { s with
      posToAddr := SlotIndex.push s.posToAddr s.size sector
      addrToBlock := Function.update s.addrToBlock sector (some ⟨block, s.size⟩)
      size := s.size + 1
      heap := Function.update s.heap block
        (some { data with address := sector, references := data.references + 1 })
      writer := .idle
      own := s.own ++ [block] } := by
    have hmem : block ∈ s.own ++ [block] := by simp
    apply h.counted
    · rfl
    · rfl
    · intro b hb
      simp [hb]
    · exact fun _ _ => rfl
    · intro b hb hbuild
      rw [hw] at hbuild
      exact absurd (Option.some.inj hbuild).symm hb
    · exact fun t b _ => h.held t b
    · intro d hd
      cases hd
      rw [if_pos hmem]
      change data.references + 1 = 1 + (holders s block : Int)
      rw [hholders, hrefs]
      rfl
    · exact fun _ _ => rfl
    · exact fun _ => Or.inr (Or.inl hmem)
    · exact fun _ => h.fresh block hsome
  refine ⟨?_, ?_, ?_, ?_, hcounted.refs, hcounted.held, hcounted.alive, hcounted.fresh, nofun, trivial⟩
  · have hindex := h.index.insert (a := sector) (by rw [hfree]; rfl)
    rw [map_pos_update]
    exact hindex
  · intro a sd hsd
    by_cases ha : a = sector
    · subst ha
      have hsd' : sd = ⟨block, s.size⟩ := by simpa using hsd.symm
      subst hsd'
      exact ⟨by simp, _, Function.update_self _ _ _, rfl⟩
    · have hold : s.addrToBlock a = some sd := by simpa [Function.update_of_ne ha] using hsd
      obtain ⟨hmem, d, hd, haddr⟩ := h.block a sd hold
      exact ⟨List.mem_append_left _ hmem, d, (Function.update_of_ne (hne hmem) _ _).trans hd, haddr⟩
  · intro b hb
    rcases List.mem_append.mp hb with hb | hb
    · obtain ⟨d, p, hd, haddr⟩ := h.own b hb
      have hsector : d.address ≠ sector := by
        intro heq
        rw [heq, hfree] at haddr
        cases haddr
      exact ⟨d, p, (Function.update_of_ne (hne hb) _ _).trans hd,
        (Function.update_of_ne hsector _ _).trans haddr⟩
    · rw [List.mem_singleton] at hb
      subst hb
      exact ⟨_, s.size, Function.update_self _ _ _, Function.update_self _ _ _⟩
  · refine List.Nodup.append h.nodup (List.nodup_singleton _) ?_
    intro b hb hb'
    exact hne hb (List.mem_singleton.mp hb')

/-! ## Blocks of the writer -/

/-- A change of one block and of the readers that hold it. -/
theorem Inv.setBlock {s : Table τ} (h : Inv s) {block : Nat} {data data' : BlockData}
    {holding : τ → Option Nat} (hdata : s.heap block = some data)
    (haddr : data'.address = data.address)
    (hholders : ∀ b, b ≠ block → holders { s with holding := holding } b = holders s b)
    (hrefs : data'.references =
      (if block ∈ s.own then 1 else 0) + holders { s with holding := holding } block)
    (hheld : ∀ t b, holding t = some b → (s.heap b).isSome)
    (hbuilding : s.writer.building ≠ some block)
    (halive : block ∈ s.own ∨ 0 < holders { s with holding := holding } block) :
    Inv { s with heap := Function.update s.heap block (some data'), holding := holding } := by
  have hsome (b : Nat) : (Function.update s.heap block (some data') b).isSome = (s.heap b).isSome := by
    by_cases hb : b = block
    · subst hb
      rw [Function.update_self, hdata]
      rfl
    · rw [Function.update_of_ne hb]
  have hfind {b : Nat} {d : BlockData} (hd : s.heap b = some d) :
      ∃ d', Function.update s.heap block (some data') b = some d' ∧ d'.address = d.address := by
    by_cases hb : b = block
    · subst hb
      rw [hdata, Option.some.injEq] at hd
      exact ⟨data', Function.update_self _ _ _, by rw [haddr, hd]⟩
    · exact ⟨d, (Function.update_of_ne hb _ _).trans hd, rfl⟩
  have hcounted : Counted { s with
      heap := Function.update s.heap block (some data'), holding := holding } := by
    apply h.counted
    · rfl
    · rfl
    · exact fun _ _ => Iff.rfl
    · exact hholders
    · exact fun _ _ hbuild => hbuild
    · exact fun t b _ => hheld t b
    · intro d hd
      cases hd
      exact hrefs
    · exact fun _ _ => rfl
    · exact fun _ => Or.inr halive
    · exact fun _ => h.fresh block (by rw [hdata]; rfl)
  refine ⟨h.index, ?_, ?_, h.nodup, hcounted.refs, hcounted.held, hcounted.alive, hcounted.fresh, ?_,
    h.writerOk⟩
  · intro a sd hsd
    obtain ⟨hmem, d, hd, ha⟩ := h.block a sd hsd
    obtain ⟨d', hd', ha'⟩ := hfind hd
    exact ⟨hmem, d', hd', ha'.trans ha⟩
  · intro b hb
    obtain ⟨d, p, hd, ha⟩ := h.own b hb
    obtain ⟨d', hd', ha'⟩ := hfind hd
    refine ⟨d', p, hd', ?_⟩
    rw [ha']
    exact ha
  · intro b hb
    have heq : b ≠ block := fun heq => hbuilding (heq ▸ hb)
    have hbuild := h.building b hb
    rw [← hholders b heq] at hbuild
    rw [hsome]
    exact hbuild

theorem Inv.building_ne_own {s : Table τ} (h : Inv s) {block : Nat} (hown : block ∈ s.own) :
    s.writer.building ≠ some block := fun hbuild => (h.building block hbuild).2.1 hown

theorem Inv.building_ne_held {s : Table τ} (h : Inv s) {t : τ} {block : Nat}
    (ht : s.holding t = some block) : s.writer.building ≠ some block := by
  intro hbuild
  have hzero := (h.building block hbuild).2.2
  have hpos := holders_pos ht
  omega

theorem Inv.setInitialized {s : Table τ} (h : Inv s) {block : Nat} (hown : block ∈ s.own) :
    ∃ s', setInitialized s block = some s' ∧ Inv s' := by
  obtain ⟨data, hdata⟩ := Option.isSome_iff_exists.mp (h.own_isSome hown)
  refine ⟨{ s with
    heap := Function.update s.heap block (some { data with initialized := true }) }, ?_, ?_⟩
  · rw [Disk.setInitialized, hdata]
    rfl
  · exact h.setBlock hdata rfl (fun b _ => rfl) (h.refs block data hdata) h.held
      (h.building_ne_own hown) (Or.inl hown)

/-! ## `RemoveBlock` -/

theorem Inv.beginRemove {s : Table τ} (h : Inv s) (hidle : s.writer = .idle) {block : Nat}
    (hown : block ∈ s.own) : ∃ s', beginRemove s block = some s' ∧ Inv s' := by
  obtain ⟨data, pos, hdata, haddr⟩ := h.own block hown
  have hlt : pos < s.size := h.index.pos_lt (a := data.address) (by rw [haddr]; rfl)
  obtain ⟨last, hlast, hlastPos⟩ := h.index.exists_key (p := s.size - 1) (by omega)
  obtain ⟨sd, hsd⟩ : ∃ sd, s.addrToBlock last = some sd := by
    cases hfind : s.addrToBlock last with
    | none =>
        rw [hfind] at hlastPos
        cases hlastPos
    | some sd => exact ⟨sd, rfl⟩
  have hsize : s.size ≠ 0 := by omega
  refine ⟨{ s with writer := .removing block data.address pos last }, ?_, ?_⟩
  · simp [Disk.beginRemove, hdata, haddr, hlast, hsd, hsize]
  · exact h.setWriter (by rw [hidle]; rfl) ⟨hown, haddr, hlast⟩

theorem Inv.remove {s : Table τ} (h : Inv s) {block currPos : Nat} {address lastAddress : Int}
    (hw : s.writer = .removing block address currPos lastAddress) :
    ∃ s', remove s block address currPos lastAddress = some s' ∧ Inv s' := by
  obtain ⟨hown, haddr, hlast⟩ : block ∈ s.own ∧ s.addrToBlock address = some ⟨block, currPos⟩ ∧
      s.posToAddr[s.size - 1]? = some lastAddress := by
    have hok := h.writerOk
    rw [WriterOk, hw] at hok
    exact hok
  have hcurr : (s.addrToBlock address).map (·.pos) = some currPos := by
    rw [haddr]
    rfl
  have hlt := h.index.pos_lt hcurr
  obtain ⟨lastData, hlastData⟩ : ∃ sd, s.addrToBlock lastAddress = some sd := by
    have hpos := (h.index.pos_iff lastAddress (s.size - 1)).mpr ⟨by omega, hlast⟩
    cases hfind : s.addrToBlock lastAddress with
    | none =>
        rw [hfind] at hpos
        cases hpos
    | some sd => exact ⟨sd, rfl⟩
  obtain ⟨-, data, hdata, hdaddr⟩ := h.block address _ haddr
  have hdata : s.heap block = some data := hdata
  have hrefs := h.refs block data hdata
  rw [if_pos hown] at hrefs
  refine ⟨_, by simp only [Disk.remove, hlast, hlastData, hdata]; rfl, ?_⟩
  have hmem {b : Nat} : b ∈ s.own.erase block ↔ b ≠ block ∧ b ∈ s.own := h.nodup.mem_erase_iff
  -- the other addresses keep their blocks
  have hfind {a : Int} (ha : a ≠ address) : ∀ sd, Function.update (Function.update s.addrToBlock
      lastAddress (some { lastData with pos := currPos })) address none a = some sd →
      ∃ p, s.addrToBlock a = some ⟨sd.block, p⟩ := by
    intro sd hsd
    rw [Function.update_of_ne ha] at hsd
    by_cases hal : a = lastAddress
    · subst hal
      rw [Function.update_self, Option.some.injEq] at hsd
      exact ⟨lastData.pos, by rw [hlastData, ← hsd]⟩
    · rw [Function.update_of_ne hal] at hsd
      exact ⟨sd.pos, hsd⟩
  have hcounted : Counted { s with
      posToAddr := s.posToAddr.set currPos lastAddress
      addrToBlock := Function.update (Function.update s.addrToBlock lastAddress
        (some { lastData with pos := currPos })) address none
      size := s.size - 1
      heap := Function.update s.heap block (if data.references - 1 = 0 then none
        else some { data with references := data.references - 1 })
      writer := .idle
      own := s.own.erase block } := by
    have hnot : block ∉ s.own.erase block := fun hcon => (hmem.mp hcon).1 rfl
    apply h.counted
    · rfl
    · rfl
    · exact fun b hb => by simp [hmem, hb]
    · exact fun _ _ => rfl
    · intro b _ hbuild
      rw [hw] at hbuild
      cases hbuild
    · exact fun t b _ => h.held t b
    · intro d hd
      rw [if_neg hnot]
      split at hd
      · cases hd
      · cases hd
        change data.references - 1 = 0 + (holders s block : Int)
        omega
    · intro t ht
      have hpos := holders_pos ht
      change 0 < holders s block at hpos
      rw [if_neg (by omega)]
      rfl
    · intro hsome
      split at hsome
      · cases hsome
      · exact Or.inr (Or.inr (by change 0 < holders s block; omega))
    · exact fun _ => h.fresh block (h.own_isSome hown)
  refine ⟨?_, ?_, ?_, h.nodup.erase _, hcounted.refs, hcounted.held, hcounted.alive, hcounted.fresh,
    nofun, trivial⟩
  · have hindex := h.index.swapRemove hcurr hlast
    rw [map_pos_update, map_pos_update]
    exact hindex
  · intro a sd hsd
    have ha : a ≠ address := by
      rintro rfl
      simp at hsd
    obtain ⟨p, hp⟩ := hfind ha sd hsd
    obtain ⟨hsdown, d, hd, hda⟩ := h.block a _ hp
    have hne : sd.block ≠ block := by
      intro heq
      simp only at hd
      rw [heq, hdata, Option.some.injEq] at hd
      exact ha (by rw [← hda, ← hd, hdaddr])
    exact ⟨hmem.mpr ⟨hne, hsdown⟩, d, (Function.update_of_ne hne _ _).trans hd, hda⟩
  · intro b hb
    obtain ⟨hne, hbown⟩ := hmem.mp hb
    obtain ⟨d, p, hd, hda⟩ := h.own b hbown
    have ha : d.address ≠ address := by
      intro heq
      rw [heq, haddr, Option.some.injEq, StorageData.mk.injEq] at hda
      exact hne hda.1.symm
    have hheap : Function.update s.heap block (if data.references - 1 = 0 then none
        else some { data with references := data.references - 1 }) b = some d :=
      (Function.update_of_ne hne _ _).trans hd
    by_cases hal : d.address = lastAddress
    · refine ⟨d, currPos, hheap, ?_⟩
      have hlastBlock : lastData.block = b := by
        rw [hal, hlastData, Option.some.injEq] at hda
        rw [hda]
      have hmove : Function.update (Function.update s.addrToBlock lastAddress
          (some { lastData with pos := currPos })) address none d.address = some ⟨b, currPos⟩ := by
        rw [Function.update_of_ne ha, hal, Function.update_self, hlastBlock]
      exact hmove
    · refine ⟨d, p, hheap, ?_⟩
      simp only [Function.update_of_ne ha, Function.update_of_ne hal, hda]

/-! ## The readers -/

/-- A random position finds a block of the writer. -/
theorem Inv.select {s : Table τ} (h : Inv s) (hsize : s.size ≠ 0) (random : Nat) :
    ∃ a sd data, s.posToAddr[random % s.size]? = some a ∧ s.addrToBlock a = some sd ∧
      s.heap sd.block = some data ∧ sd.block ∈ s.own := by
  obtain ⟨a, hget, hpos⟩ := h.index.exists_key (p := random % s.size) (Nat.mod_lt _ (by omega))
  cases hfind : s.addrToBlock a with
  | none =>
      rw [hfind] at hpos
      cases hpos
  | some sd =>
      obtain ⟨hown, data, hdata, -⟩ := h.block a sd hfind
      exact ⟨a, sd, data, hget, hfind, hdata, hown⟩

section Readers

variable [DecidableEq τ]

/-- A reader that held nothing takes a block. -/
theorem holders_get {s u : Table τ} {t : τ} {block : Nat} (hnone : s.holding t = none)
    (hs : u.holding = Function.update s.holding t (some block)) (b : Nat) :
    holders u b = holders s b + if b = block then 1 else 0 := by
  rw [holders, holders, hs]
  by_cases hb : b = block
  · subst hb
    have hset : (Finset.univ.filter fun u => Function.update s.holding t (some b) u = some b) =
        Insert.insert t (Finset.univ.filter fun u => s.holding u = some b) := by
      ext u
      by_cases hu : u = t
      · subst hu
        simp
      · simp [hu]
    rw [hset, Finset.card_insert_of_notMem (by simp [hnone]), if_pos rfl]
  · have hset : (Finset.univ.filter fun u => Function.update s.holding t (some block) u = some b) =
        Finset.univ.filter fun u => s.holding u = some b := by
      ext u
      by_cases hu : u = t
      · subst hu
        simp [hnone, Ne.symm hb]
      · simp [Function.update_of_ne hu]
    rw [hset, if_neg hb, Nat.add_zero]

/-- A reader gives its block back. -/
theorem holders_release {s u : Table τ} {t : τ} {block : Nat} (hheld : s.holding t = some block)
    (hs : u.holding = Function.update s.holding t none) (b : Nat) :
    holders s b = holders u b + if b = block then 1 else 0 := by
  refine holders_get (t := t) ?_ ?_ b
  · rw [hs, Function.update_self]
  · rw [hs, Function.update_idem, ← hheld, Function.update_eq_self]

theorem Inv.getRandomBlock {s : Table τ} (h : Inv s) {t : τ} (hnone : s.holding t = none)
    (random : Nat) : ∃ s', getRandomBlock s t random = some s' ∧ Inv s' := by
  rw [Disk.getRandomBlock]
  split
  · exact ⟨s, rfl, h⟩
  next hsize =>
  obtain ⟨a, sd, data, hget, hsd, hdata, hown⟩ := h.select hsize random
  rw [hget, Option.bind_eq_bind, Option.bind_some, hsd, Option.bind_eq_bind, Option.bind_some, hdata,
    Option.bind_eq_bind, Option.bind_some]
  split
  · refine ⟨_, rfl, ?_⟩
    have hholders (b : Nat) := holders_get (s := s)
      (u := { s with holding := Function.update s.holding t (some sd.block) }) hnone rfl b
    refine h.setBlock hdata rfl ?_ ?_ ?_ (h.building_ne_own hown) (Or.inl hown)
    · intro b hb
      rw [hholders b, if_neg hb, Nat.add_zero]
    · rw [hholders, if_pos rfl]
      have hr := h.refs _ data hdata
      push_cast
      omega
    · intro u b hu
      by_cases hut : u = t
      · subst hut
        rw [Function.update_self, Option.some.injEq] at hu
        rw [← hu, hdata]
        rfl
      · rw [Function.update_of_ne hut] at hu
        exact h.held u b hu
  · exact ⟨s, rfl, h⟩

/-- The last holder of a block that is not in the table deletes it. -/
theorem Inv.releaseLast {s : Table τ} (h : Inv s) {t : τ} {block : Nat} (hown : block ∉ s.own)
    (hbuilding : s.writer.building ≠ some block) (hheld : s.holding t = some block)
    (hlast : holders s block = 1) :
    Inv { s with
      heap := Function.update s.heap block none
      holding := Function.update s.holding t none } := by
  have hholders (b : Nat) := holders_release (s := s)
    (u := { s with holding := Function.update s.holding t none }) hheld rfl b
  have hkeep {b : Nat} (hb : b ≠ block) :
      holders { s with holding := Function.update s.holding t none } b = holders s b := by
    rw [hholders b, if_neg hb, Nat.add_zero]
  have hzero : holders { s with holding := Function.update s.holding t none } block = 0 := by
    have hcount := hholders block
    rw [hlast, if_pos rfl] at hcount
    omega
  have hne {b : Nat} (hb : b ∈ s.own) : b ≠ block := fun heq => hown (heq ▸ hb)
  have hold {b : Nat} (hb : (Function.update s.heap block none b).isSome) :
      b ≠ block ∧ (s.heap b).isSome := by
    have hbne : b ≠ block := by
      rintro rfl
      simp at hb
    rw [Function.update_of_ne hbne] at hb
    exact ⟨hbne, hb⟩
  refine ⟨h.index, ?_, ?_, h.nodup, ?_, ?_, ?_, ?_, ?_, h.writerOk⟩
  · intro a sd hsd
    obtain ⟨hmem, d, hd, ha⟩ := h.block a sd hsd
    exact ⟨hmem, d, (Function.update_of_ne (hne hmem) _ _).trans hd, ha⟩
  · intro b hb
    obtain ⟨d, p, hd, ha⟩ := h.own b hb
    exact ⟨d, p, (Function.update_of_ne (hne hb) _ _).trans hd, ha⟩
  · intro b d hd
    have hb : b ≠ block := by
      rintro rfl
      simp at hd
    have hr := h.refs b d (by simpa [Function.update_of_ne hb] using hd)
    rw [← hkeep hb] at hr
    exact hr
  · intro u b hu
    have hb : b ≠ block := by
      rintro rfl
      have hpos : 0 < holders { s with holding := Function.update s.holding t none } b := holders_pos hu
      omega
    have hut : u ≠ t := by
      rintro rfl
      simp at hu
    have hb' := h.held u b (by simpa [Function.update_of_ne hut] using hu)
    simpa [Function.update_of_ne hb] using hb'
  · intro b hb
    obtain ⟨hbne, hbsome⟩ := hold hb
    have hlive := h.alive b hbsome
    rw [← hkeep hbne] at hlive
    exact hlive
  · intro b hb
    exact h.fresh b (hold hb).2
  · intro b hb
    have hbne : b ≠ block := fun heq => hbuilding (heq ▸ hb)
    have hbuild := h.building b hb
    rw [← hkeep hbne] at hbuild
    refine ⟨?_, hbuild.2⟩
    simpa [Function.update_of_ne hbne] using hbuild.1

theorem Inv.releaseBlock {s : Table τ} (h : Inv s) {t : τ} {block : Nat}
    (hheld : s.holding t = some block) : ∃ s', releaseBlock s t block = some s' ∧ Inv s' := by
  obtain ⟨data, hdata⟩ := Option.isSome_iff_exists.mp (h.held t block hheld)
  have hr := h.refs block data hdata
  have hpos := holders_pos hheld
  have hbuilding := h.building_ne_held hheld
  refine ⟨_, by rw [Disk.releaseBlock, hdata]; rfl, ?_⟩
  by_cases hone : data.references = 1
  · have hown : block ∉ s.own := by
      intro hmem
      rw [if_pos hmem] at hr
      omega
    have hlast : holders s block = 1 := by
      rw [if_neg hown] at hr
      omega
    simp only [if_pos hone]
    exact h.releaseLast hown hbuilding hheld hlast
  · have hrefs : 0 < data.references := by
      rw [hr]
      split <;> omega
    simp only [if_neg hone, if_pos hrefs]
    have hholders (b : Nat) := holders_release (s := s)
      (u := { s with holding := Function.update s.holding t none }) hheld rfl b
    refine h.setBlock hdata rfl ?_ ?_ ?_ hbuilding ?_
    · intro b hb
      rw [hholders b, if_neg hb, Nat.add_zero]
    · have hcount := hholders block
      rw [if_pos rfl] at hcount
      simp only
      omega
    · intro u b hu
      have hut : u ≠ t := by
        rintro rfl
        simp at hu
      exact h.held u b (by simpa [Function.update_of_ne hut] using hu)
    · have hcount := hholders block
      rw [if_pos rfl] at hcount
      by_cases hown : block ∈ s.own
      · exact Or.inl hown
      · rw [if_neg hown] at hr
        refine Or.inr ?_
        omega

/-- Every call of a thread has a next state, and it keeps the invariant. -/
theorem Inv.next {s : Table τ} (h : Inv s) {e : Event τ} (he : Enabled s e) :
    ∃ s', next s e = some s' ∧ Inv s' := by
  cases e with
  | alloc => exact ⟨_, rfl, h.alloc he⟩
  | check sector fits =>
      obtain ⟨block, tries, hw, -⟩ := he
      exact ⟨_, by simp only [Disk.next, hw], h.check hw sector fits⟩
  | giveUp =>
      obtain ⟨block, tries, hw, -⟩ := he
      simp only [Disk.next, hw]
      exact h.giveUp hw
  | prepare =>
      obtain ⟨block, sector, hw⟩ := he
      refine ⟨_, by simp only [Disk.next, hw]; rfl, h.setWriter (by rw [hw]; rfl) ?_⟩
      have hok := h.writerOk
      rw [WriterOk, hw] at hok
      exact ⟨hok, rfl⟩
  | insert =>
      obtain ⟨block, sector, pos, hw⟩ := he
      simp only [Disk.next, hw]
      exact h.insert hw
  | setInitialized block => exact h.setInitialized he.2
  | useOwn block =>
      obtain ⟨data, hdata⟩ := Option.isSome_iff_exists.mp (h.own_isSome he.2)
      exact ⟨s, by simp only [Disk.next, hdata, Option.map_some], h⟩
  | beginRemove block => exact h.beginRemove he.1 he.2
  | remove =>
      obtain ⟨block, address, currPos, lastAddress, hw⟩ := he
      simp only [Disk.next, hw]
      exact h.remove hw
  | get t random => exact h.getRandomBlock he random
  | useHeld t =>
      obtain ⟨block, hblock⟩ := Option.isSome_iff_exists.mp he
      obtain ⟨data, hdata⟩ := Option.isSome_iff_exists.mp (h.held t block hblock)
      exact ⟨s, by simp only [Disk.next, hblock, Option.bind_some, hdata, Option.map_some], h⟩
  | release t =>
      obtain ⟨block, hblock⟩ := Option.isSome_iff_exists.mp he
      simp only [Disk.next, hblock, Option.bind_some]
      exact h.releaseBlock hblock

theorem Inv.step {s s' : Table τ} (h : Inv s) (hstep : Step s s') : Inv s' := by
  obtain ⟨e, he, hnext⟩ := hstep
  obtain ⟨s'', hnext', hinv⟩ := h.next he
  rw [hnext, Option.some.injEq] at hnext'
  rw [hnext']
  exact hinv

/-- The invariant holds in every run. -/
theorem inv_of_reachable {s : Table τ} (h : Reachable s) : Inv s := by
  induction h with
  | refl => exact inv_initial
  | tail _ hstep ih => exact ih.step hstep

/-- The block is in the table. -/
def InTable (s : Table τ) (block : Nat) : Prop := ∃ a sd, s.addrToBlock a = some sd ∧ sd.block = block

omit [DecidableEq τ] in
theorem Inv.inTable_iff {s : Table τ} (h : Inv s) (block : Nat) : InTable s block ↔ block ∈ s.own := by
  constructor
  · rintro ⟨a, sd, hsd, rfl⟩
    exact (h.block a sd hsd).1
  · intro hown
    obtain ⟨data, pos, -, hsd⟩ := h.own block hown
    exact ⟨data.address, ⟨block, pos⟩, hsd, rfl⟩

/-- The references that a block has: the one of the table and those of the readers. -/
noncomputable def count (s : Table τ) (block : Nat) : Nat :=
  open Classical in (if InTable s block then 1 else 0) + holders s block

omit [DecidableEq τ] in
theorem Inv.references_eq {s : Table τ} (h : Inv s) {block : Nat} {data : BlockData}
    (hdata : s.heap block = some data) : data.references = count s block := by
  rw [h.refs block data hdata, count]
  by_cases hown : block ∈ s.own
  · rw [if_pos hown, if_pos ((h.inTable_iff block).mpr hown)]
    push_cast
    rfl
  · rw [if_neg hown, if_neg fun hin => hown ((h.inTable_iff block).mp hin)]
    push_cast
    rfl

omit [DecidableEq τ] in
theorem Inv.exists_iff_count {s : Table τ} (h : Inv s) {block : Nat}
    (hbuilding : s.writer.building ≠ some block) : (s.heap block).isSome ↔ 0 < count s block := by
  rw [count]
  constructor
  · intro hsome
    rcases h.alive block hsome with hbuild | hown | hpos
    · exact absurd hbuild hbuilding
    · rw [if_pos ((h.inTable_iff block).mpr hown)]
      omega
    · omega
  · intro hcount
    by_cases hin : InTable s block
    · exact h.own_isSome ((h.inTable_iff block).mp hin)
    · rw [if_neg hin, Nat.zero_add] at hcount
      obtain ⟨t, ht⟩ := Finset.card_pos.mp hcount
      exact h.held t block (Finset.mem_filter.mp ht).2

end Readers

/-- Whatever the threads have done: the slots of the vector in use and the map are inverse to each
other, the counter of a block is one for the table and one for each reader that holds it, a block
that `GetUnusedBlock` has finished with is deleted when this is zero and not before, and no thread
can reach for a deleted block. -/
theorem disk_block_table {τ : Type} [Fintype τ] [DecidableEq τ] {s : Table τ} (h : Reachable s) :
    (∀ p < s.size, ∃ a sd, s.posToAddr[p]? = some a ∧ s.addrToBlock a = some sd ∧ sd.pos = p) ∧
    {a | (s.addrToBlock a).isSome}.ncard = s.size ∧
    (∀ a sd, s.addrToBlock a = some sd → sd.pos < s.size ∧ s.posToAddr[sd.pos]? = some a) ∧
    (∀ block data, s.heap block = some data → data.references = count s block) ∧
    (∀ block, s.writer.building ≠ some block → ((s.heap block).isSome ↔ 0 < count s block)) ∧
    ∀ e, Enabled s e → ∃ s', next s e = some s' := by
  have hinv := inv_of_reachable h
  refine ⟨?_, ?_, ?_, ?_, ?_, ?_⟩
  · intro p hp
    obtain ⟨a, hget, hpos⟩ := hinv.index.exists_key hp
    obtain ⟨sd, hsd, hsdpos⟩ := Option.map_eq_some_iff.mp hpos
    exact ⟨a, sd, hget, hsd, hsdpos⟩
  · have hkeys := hinv.index.ncard_keys
    simpa only [Option.isSome_map] using hkeys
  · intro a sd hsd
    have hpos := (hinv.index.pos_iff a sd.pos).mp (by rw [hsd]; rfl)
    exact hpos
  · exact fun block data hdata => hinv.references_eq hdata
  · exact fun block hbuilding => hinv.exists_iff_count hbuilding
  · intro e he
    obtain ⟨s', hnext, -⟩ := hinv.next he
    exact ⟨s', hnext⟩

/-- A reader gets the only block, and then the writer removes it: the block is the reader's. -/
theorem disk_block_table_reader : ∃ s : Table (Fin 1), Reachable s ∧ s.size = 0 ∧
    (s.heap 0).isSome ∧ 0 < count s 0 ∧ ∃ s', next s (.release 0) = some s' ∧ s'.heap 0 = none := by
  have hstart : Reachable (initial (Fin 1)) := .refl
  have hinsert := (((hstart.next .alloc rfl rfl).next (.check 8 true)
    ⟨0, 0, rfl, by decide⟩ rfl).next .prepare ⟨0, 8, rfl⟩ rfl).next .insert ⟨0, 8, 0, rfl⟩ rfl
  have hget := (hinsert.next (.setInitialized 0) ⟨rfl, by decide⟩ rfl).next (.get 0 5) rfl rfl
  have hremove := (hget.next (.beginRemove 0) ⟨rfl, by decide⟩ rfl).next .remove
    ⟨0, 8, 0, 8, rfl⟩ rfl
  have hiff := (disk_block_table hremove).2.2.2.2.1 0 nofun
  exact ⟨_, hremove, rfl, rfl, hiff.mp rfl, _, rfl, rfl⟩

end StressAppTest.Disk
