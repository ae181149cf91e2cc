import StressAppTest.Diag.DeviceTree

/-!
# The diagnoser (`ErrorDiag`, `error_diag.cc`)

Errors of DIMMs and disks are attached to their devices in the tree. An error of a disk is reported
only if neither the DIMM of the source nor the DIMM of the destination is known to be bad.

The history of the calls decides everything: `attached` are the errors that the history attaches to a
device, and `Masked` says when it keeps an error of a disk from being reported. As long as no disk has
the name of a DIMM, the tree is what the history says (`TreeInv.step`), and a DIMM is known to be bad
exactly after an uncorrectable error or a miscompare of its own (`any_fatal_attached`).
-/

namespace StressAppTest.Diag

open DeviceTree

/-- What is asked of the `OsLayer`. -/
structure OsFunctions where
  virtualToPhysical : Word64 → Word64
  findDimm : Word64 → String

/-- The arguments of `ErrorReport`. -/
structure Report where
  part : String
  symptom : String
  count : Int
  deriving DecidableEq

/-- The tree, and what has been reported and logged. -/
structure ErrorDiag where
  tree : DeviceTree
  reports : List Report
  log : List String

/-- `ErrorDiag::InitializeDeviceTree` -/
def ErrorDiag.initial : ErrorDiag := ⟨.new "system_root", [], []⟩

/-! ## Errors of DIMMs -/

/-- What the three functions have in common. -/
def addDimmError (dimm : String) (error : ErrorInstance) (reports : List Report) (result : Int)
    (s : ErrorDiag) : ErrorDiag × Int :=
  ({ s with
    tree := (s.tree.insertSubDevice dimm).addErrorInstance dimm error
    reports := s.reports ++ reports }, result)

def addCeccError (dimm : String) : ErrorDiag → ErrorDiag × Int :=
  addDimmError dimm ⟨.ecc, .correctable, ∅, .ecc⟩ [] 0

def addUeccError (dimm : String) : ErrorDiag → ErrorDiag × Int :=
  addDimmError dimm ⟨.ecc, .fatal, ∅, .ecc⟩ [] 0

def addMiscompareError (dimm : String) (addr : Word64) (count : Int) : ErrorDiag → ErrorDiag × Int :=
  addDimmError dimm ⟨.miscompare, .fatal, ∅, .miscompare addr⟩ [⟨dimm, "miscompare", count⟩] 1

/-! ## Errors of disks -/

/-- What the two functions differ in, and what they are given. -/
structure HddError where
  devicename : String
  what : String
  symptom : String
  type : SATErrorType
  detail : ErrorDetail
  offset : Int
  srcAddr : Word64
  dstAddr : Word64

/-- `ErrorDiag::AddressToDimmString` -/
def addressToDimmString (os : OsFunctions) (addr : Word64) (offset : Int) : String :=
  os.findDimm (os.virtualToPhysical (addr + BitVec.ofInt 64 offset))

namespace HddError

def srcDimm (os : OsFunctions) (h : HddError) : String := addressToDimmString os h.srcAddr h.offset

def dstDimm (os : OsFunctions) (h : HddError) : String := addressToDimmString os h.dstAddr h.offset

end HddError

/-- The tree, `causes_`, `mask_hdd_error` and the log while the DIMMs are looked up. -/
structure Suspects where
  tree : DeviceTree
  causes : Finset String
  maskHddError : Bool
  log : List String

/-- A DIMM as a possible cause. -/
def checkDimm (h : HddError) (place dimm : String) (c : Suspects) : Suspects :=
  if dimm ≠ "DIMM Unknown" then
    let tree := c.tree.insertSubDevice dimm
    let bad := (tree.findInSubTree dimm).any knownBad
    { tree := tree
      causes := insert dimm c.causes
      maskHddError := c.maskHddError || bad
      log :=
        if bad then
          c.log ++ ["Log: supressed " ++ h.devicename ++ " " ++ h.what ++ " report: known bad " ++
            place ++ ": " ++ dimm ++ "\n"]
        else c.log }
  else c

def checkDimms (os : OsFunctions) (h : HddError) (s : ErrorDiag) : Suspects :=
  checkDimm h "destination" (h.dstDimm os) (checkDimm h "source" (h.srcDimm os) ⟨s.tree, ∅, false, s.log⟩)

/-- `AddHDDMiscompareError` and `AddHDDSectorTagError`. The severity is set after the error has been
attached, in the branch that reports it. -/
def addHddError (os : OsFunctions) (h : HddError) (s : ErrorDiag) : ErrorDiag × Int :=
  let c := checkDimms os h s
  let tree := c.tree.insertSubDevice h.devicename
  if c.maskHddError = false then
    ({ tree := tree.addErrorInstance h.devicename ⟨h.type, .fatal, c.causes, h.detail⟩
       reports := s.reports ++ [⟨h.devicename, h.symptom, 1⟩]
       log := c.log }, 1)
  else
    ({ tree := tree.addErrorInstance h.devicename ⟨h.type, .correctable, c.causes, h.detail⟩
       reports := s.reports
       log := c.log }, 0)

def hddMiscompare (devicename : String) (block offset : Int) (srcAddr dstAddr : Word64) : HddError where
  devicename := devicename
  what := "miscompare"
  symptom := "miscompare"
  type := .miscompare
  detail := .hddMiscompare srcAddr dstAddr offset block
  offset := offset
  srcAddr := srcAddr
  dstAddr := dstAddr

def hddSectorTag (devicename : String) (block offset sector : Int) (srcAddr dstAddr : Word64) :
    HddError where
  devicename := devicename
  what := "sector tag error"
  symptom := "sector"
  type := .sectorTag
  detail := .hddSectorTag srcAddr dstAddr sector block
  offset := offset
  srcAddr := srcAddr
  dstAddr := dstAddr

def addHDDMiscompareError (os : OsFunctions) (devicename : String) (block offset : Int)
    (srcAddr dstAddr : Word64) : ErrorDiag → ErrorDiag × Int :=
  addHddError os (hddMiscompare devicename block offset srcAddr dstAddr)

def addHDDSectorTagError (os : OsFunctions) (devicename : String) (block offset sector : Int)
    (srcAddr dstAddr : Word64) : ErrorDiag → ErrorDiag × Int :=
  addHddError os (hddSectorTag devicename block offset sector srcAddr dstAddr)

/-! ## Sequences of calls -/

inductive DiagCall
  | cecc (dimm : String)
  | uecc (dimm : String)
  | miscompare (dimm : String) (addr : Word64) (count : Int)
  | hddMiscompare (devicename : String) (block offset : Int) (srcAddr dstAddr : Word64)
  | hddSectorTag (devicename : String) (block offset sector : Int) (srcAddr dstAddr : Word64)

def call (os : OsFunctions) : DiagCall → ErrorDiag → ErrorDiag × Int
  | .cecc dimm => addCeccError dimm
  | .uecc dimm => addUeccError dimm
  | .miscompare dimm addr count => addMiscompareError dimm addr count
  | .hddMiscompare devicename block offset srcAddr dstAddr =>
    addHDDMiscompareError os devicename block offset srcAddr dstAddr
  | .hddSectorTag devicename block offset sector srcAddr dstAddr =>
    addHDDSectorTagError os devicename block offset sector srcAddr dstAddr

/-- The diagnoser after a sequence of calls. -/
def run (os : OsFunctions) (calls : List DiagCall) : ErrorDiag :=
  calls.foldl (fun s c => (call os c s).1) .initial

namespace DiagCall

/-- The error of a disk that the call is about. -/
def hdd : DiagCall → Option HddError
  | .hddMiscompare devicename block offset srcAddr dstAddr =>
    some (Diag.hddMiscompare devicename block offset srcAddr dstAddr)
  | .hddSectorTag devicename block offset sector srcAddr dstAddr =>
    some (Diag.hddSectorTag devicename block offset sector srcAddr dstAddr)
  | _ => none

/-- The DIMM that the call is about, with the error that it attaches. -/
def dimm : DiagCall → Option (String × ErrorInstance)
  | .cecc dimm => some (dimm, ⟨.ecc, .correctable, ∅, .ecc⟩)
  | .uecc dimm => some (dimm, ⟨.ecc, .fatal, ∅, .ecc⟩)
  | .miscompare dimm addr _ => some (dimm, ⟨.miscompare, .fatal, ∅, .miscompare addr⟩)
  | _ => none

/-- The DIMMs of source and destination whose names are known. -/
def knownDimms (os : OsFunctions) (c : DiagCall) : List String :=
  match c.hdd with
  | some h => [h.srcDimm os, h.dstDimm os].filter fun dimm => dimm ≠ "DIMM Unknown"
  | none => []

/-- The device the call names. -/
def device : DiagCall → String
  | .cecc dimm | .uecc dimm | .miscompare dimm _ _ => dimm
  | .hddMiscompare devicename _ _ _ _ | .hddSectorTag devicename _ _ _ _ _ => devicename

/-- An uncorrectable error or a miscompare of this DIMM. -/
def Blames (c : DiagCall) (dimm : String) : Prop :=
  c = .uecc dimm ∨ ∃ addr count, c = .miscompare dimm addr count

instance (c : DiagCall) (dimm : String) : Decidable (c.Blames dimm) :=
  match c with
  | .uecc d => decidable_of_iff (d = dimm) (by simp [Blames])
  | .miscompare d addr count => decidable_of_iff (d = dimm) (by simp [Blames])
  | .cecc _ => .isFalse (by simp [Blames])
  | .hddMiscompare _ _ _ _ _ => .isFalse (by simp [Blames])
  | .hddSectorTag _ _ _ _ _ _ => .isFalse (by simp [Blames])

end DiagCall

/-- After `pre`, an error of a disk is kept from being reported. -/
def Masked (os : OsFunctions) (pre : List DiagCall) (c : DiagCall) : Prop :=
  ∃ dimm ∈ c.knownDimms os, ∃ c' ∈ pre, c'.Blames dimm

instance (os : OsFunctions) (pre : List DiagCall) (c : DiagCall) : Decidable (Masked os pre c) :=
  inferInstanceAs (Decidable (∃ dimm ∈ c.knownDimms os, ∃ c' ∈ pre, c'.Blames dimm))

/-- The error that a call attaches after `pre`. -/
def instanceOf (os : OsFunctions) (pre : List DiagCall) (c : DiagCall) : Option ErrorInstance :=
  match c.hdd with
  | some h => some
    ⟨h.type, if Masked os pre c then .correctable else .fatal, (c.knownDimms os).toFinset, h.detail⟩
  | none => c.dimm.map Prod.snd

/-- The errors that the calls after `pre` attach to a device, in their order. -/
def attachedAfter (os : OsFunctions) (pre : List DiagCall) : List DiagCall → String → List ErrorInstance
  | [], _ => []
  | c :: calls, name =>
    (if c.device = name then (instanceOf os pre c).toList else []) ++
      attachedAfter os (pre ++ [c]) calls name

/-- The errors of the calls that name a device. -/
def attached (os : OsFunctions) (calls : List DiagCall) (name : String) : List ErrorInstance :=
  attachedAfter os [] calls name

/-- The devices that the call puts into the tree. -/
def DiagCall.names (os : OsFunctions) (c : DiagCall) : List String := c.knownDimms os ++ [c.device]

/-- No disk has the name of a DIMM. -/
def Distinct (os : OsFunctions) (calls : List DiagCall) : Prop :=
  ∀ c ∈ calls, ∀ h, c.hdd = some h → ∀ c' ∈ calls,
    (∀ d, c'.dimm = some d → d.1 ≠ h.devicename) ∧ h.devicename ∉ c'.knownDimms os

/-! ## The history of a device -/

def isFatal (error : ErrorInstance) : Bool := error.severity == .fatal

section History

variable {os : OsFunctions} {calls pre : List DiagCall} {c : DiagCall} {name : String}

theorem attachedAfter_append (c : DiagCall) (name : String) :
    attachedAfter os pre (calls ++ [c]) name = attachedAfter os pre calls name ++
      if c.device = name then (instanceOf os (pre ++ calls) c).toList else [] := by
  induction calls generalizing pre with
  | nil => simp [attachedAfter]
  | cons c' calls ih =>
      rw [List.cons_append, attachedAfter, attachedAfter, ih, List.append_assoc, List.append_assoc]
      rfl

theorem attached_append (c : DiagCall) (name : String) :
    attached os (calls ++ [c]) name = attached os calls name ++
      if c.device = name then (instanceOf os calls c).toList else [] := attachedAfter_append c name

/-- A call is about a DIMM or about a disk. -/
theorem DiagCall.cases (c : DiagCall) :
    (∃ error, c.hdd = none ∧ c.dimm = some (c.device, error) ∧
      (isFatal error = true ↔ c.Blames c.device)) ∨
    ∃ h, c.hdd = some h ∧ c.dimm = none ∧ c.device = h.devicename := by
  cases c with
  | cecc d => exact Or.inl ⟨_, rfl, rfl, by simp [isFatal, DiagCall.Blames]⟩
  | uecc d => exact Or.inl ⟨_, rfl, rfl, by simp [isFatal, DiagCall.Blames, DiagCall.device]⟩
  | miscompare d addr count =>
      exact Or.inl ⟨_, rfl, rfl, by simp [isFatal, DiagCall.Blames, DiagCall.device]⟩
  | hddMiscompare | hddSectorTag => exact Or.inr ⟨_, rfl, rfl, rfl⟩

theorem DiagCall.Blames.device (h : c.Blames name) : c.device = name := by
  rcases h with rfl | ⟨addr, count, rfl⟩ <;> rfl

theorem DiagCall.Blames.hdd (h : c.Blames name) : c.hdd = none := by
  rcases h with rfl | ⟨addr, count, rfl⟩ <;> rfl

/-- **Known bad.** A device that is no disk has a fatal error exactly after an uncorrectable error or
a miscompare of its own. -/
theorem any_fatal_attached (hname : ∀ c ∈ calls, ∀ h, c.hdd = some h → h.devicename ≠ name) :
    (attached os calls name).any isFatal = true ↔ ∃ c ∈ calls, c.Blames name := by
  induction calls using List.reverseRecOn with
  | nil => simp [attached, attachedAfter]
  | append_singleton calls c ih =>
      have hold := ih fun c' hc' => hname c' (List.mem_append_left _ hc')
      have hnew : (if c.device = name then (instanceOf os calls c).toList else []).any isFatal = true ↔
          c.Blames name := by
        rcases c.cases with ⟨error, hhdd, hdimm, hfatal⟩ | ⟨h, hhdd, -, hdevice⟩
        · by_cases hdev : c.device = name
          · rw [if_pos hdev, instanceOf, hhdd, hdimm, ← hdev, ← hfatal]
            simp
          · rw [if_neg hdev]
            simp only [List.any_nil, Bool.false_eq_true, false_iff]
            intro hblames
            exact hdev hblames.device
        · have hne := hname c (by simp) h hhdd
          rw [if_neg (hdevice ▸ hne)]
          simp only [List.any_nil, Bool.false_eq_true, false_iff]
          intro hblames
          exact absurd (hblames.hdd.symm.trans hhdd) (Option.some_ne_none h).symm
      rw [attached_append, List.any_append, Bool.or_eq_true, hold, hnew]
      simp [or_and_right, exists_or]

end History

/-! ## One call -/

section Calls

variable {os : OsFunctions} {calls : List DiagCall} {c : DiagCall} {s : ErrorDiag} {l : Entries}

/-- A DIMM that is looked up is in the tree afterwards, and masks if it has a fatal error. -/
theorem checkDimm_known (h : HddError) (place : String) {dimm : String} (hdimm : dimm ≠ "DIMM Unknown")
    {u : Suspects} (htree : u.tree = ofEntries l) :
    (checkDimm h place dimm u).tree = ofEntries (l.insert dimm) ∧
    (checkDimm h place dimm u).causes = insert dimm u.causes ∧
    (checkDimm h place dimm u).maskHddError = (u.maskHddError || (l.errorsOf dimm).any isFatal) := by
  have hmem : dimm ∈ (l.insert dimm).map Prod.fst := Entries.mem_insert.mpr (Or.inl rfl)
  unfold checkDimm
  rw [if_pos hdimm, htree, insertSubDevice_ofEntries]
  refine ⟨rfl, rfl, ?_⟩
  dsimp only
  rw [findInSubTree_ofEntries, if_pos hmem, Entries.errorsOf_insert]
  rfl

theorem checkDimm_unknown (h : HddError) (place : String) {dimm : String}
    (hdimm : ¬ dimm ≠ "DIMM Unknown") (u : Suspects) : checkDimm h place dimm u = u := if_neg hdimm

/-- What both look-ups leave. -/
theorem checkDimms_spec (os : OsFunctions) (h : HddError) (hc : c.hdd = some h) (htree : s.tree = ofEntries l) :
    (checkDimms os h s).tree = ofEntries (l.insertAll (c.knownDimms os)) ∧
    (checkDimms os h s).causes = (c.knownDimms os).toFinset ∧
    ((checkDimms os h s).maskHddError = true ↔
      ∃ d ∈ c.knownDimms os, (l.errorsOf d).any isFatal = true) := by
  unfold checkDimms DiagCall.knownDimms Entries.insertAll
  rw [hc]
  dsimp only
  by_cases hsrc : h.srcDimm os ≠ "DIMM Unknown"
  · obtain ⟨htree₁, hcauses₁, hmask₁⟩ :=
      checkDimm_known (u := ⟨s.tree, ∅, false, s.log⟩) h "source" hsrc htree
    by_cases hdst : h.dstDimm os ≠ "DIMM Unknown"
    · obtain ⟨htree₂, hcauses₂, hmask₂⟩ := checkDimm_known h "destination" hdst htree₁
      rw [htree₂, hcauses₂, hmask₂, hcauses₁, hmask₁, Entries.errorsOf_insert]
      simp [hsrc, hdst, Finset.pair_comm]
    · rw [checkDimm_unknown h "destination" hdst, htree₁, hcauses₁, hmask₁]
      simp [hsrc, hdst]
  · rw [checkDimm_unknown h "source" hsrc]
    by_cases hdst : h.dstDimm os ≠ "DIMM Unknown"
    · obtain ⟨htree₂, hcauses₂, hmask₂⟩ :=
        checkDimm_known (u := ⟨s.tree, ∅, false, s.log⟩) h "destination" hdst htree
      rw [htree₂, hcauses₂, hmask₂]
      simp [hsrc, hdst]
    · rw [checkDimm_unknown h "destination" hdst]
      simp [hsrc, hdst, htree]

/-- The tree is what the history says. -/
structure TreeInv (os : OsFunctions) (calls : List DiagCall) (l : Entries) : Prop where
  nodup : (l.map Prod.fst).Nodup
  mem : ∀ name, name ∈ l.map Prod.fst ↔ ∃ c ∈ calls, name ∈ c.names os
  errors : ∀ name, l.errorsOf name = attached os calls name

theorem treeInv_nil : TreeInv os [] [] where
  nodup := List.nodup_nil
  mem name := by simp
  errors name := rfl

/-- The devices that a call names are inserted, and its error is attached. -/
theorem TreeInv.step (h : TreeInv os calls l) {error : ErrorInstance}
    (herror : instanceOf os calls c = some error) :
    TreeInv os (calls ++ [c]) ((l.insertAll (c.names os)).add c.device error) := by
  have hmem : c.device ∈ (l.insertAll (c.names os)).map Prod.fst :=
    Entries.mem_insertAll.mpr (Or.inl (by simp [DiagCall.names]))
  constructor
  · rw [Entries.map_add]
    exact Entries.nodup_insertAll h.nodup
  · intro name
    rw [Entries.map_add, Entries.mem_insertAll, h.mem]
    simp [or_and_right, exists_or, or_comm]
  · intro name
    rw [Entries.errorsOf_add hmem, Entries.errorsOf_insertAll, h.errors, attached_append, herror]
    by_cases hname : name = c.device
    · rw [if_pos hname, if_pos hname.symm]
      rfl
    · rw [if_neg hname, if_neg (Ne.symm hname)]

/-- **The look-up** masks when the history says so. -/
theorem mask_iff (hinv : TreeInv os calls l) (hdistinct : Distinct os (calls ++ [c])) {h : HddError}
    (hc : c.hdd = some h) (htree : s.tree = ofEntries l) :
    (checkDimms os h s).maskHddError = true ↔ Masked os calls c := by
  rw [(checkDimms_spec os h hc htree).2.2]
  apply exists_congr
  intro d
  apply and_congr_right
  intro hd
  rw [hinv.errors]
  apply any_fatal_attached
  intro c' hc' h' hhdd' heq
  have hknown := (hdistinct c' (List.mem_append_left _ hc') h' hhdd' c (by simp)).2
  exact hknown (heq ▸ hd)

/-- An error of a disk. -/
theorem addHddError_spec (hinv : TreeInv os calls l) (hdistinct : Distinct os (calls ++ [c]))
    {h : HddError} (hc : c.hdd = some h) (hdev : c.device = h.devicename)
    (htree : s.tree = ofEntries l) :
    ∃ error, instanceOf os calls c = some error ∧
      (addHddError os h s).1.tree = ofEntries ((l.insertAll (c.names os)).add c.device error) ∧
      (Masked os calls c → (addHddError os h s).2 = 0 ∧ (addHddError os h s).1.reports = s.reports) ∧
      (¬ Masked os calls c → (addHddError os h s).2 = 1 ∧
        (addHddError os h s).1.reports = s.reports ++ [⟨h.devicename, h.symptom, 1⟩]) := by
  obtain ⟨htree', hcauses, -⟩ := checkDimms_spec os h hc htree
  have hmask := mask_iff hinv hdistinct hc htree
  have hmem : h.devicename ∈ (l.insertAll (c.names os)).map Prod.fst :=
    Entries.mem_insertAll.mpr (Or.inl (by simp [DiagCall.names, hdev]))
  have hinsert : (checkDimms os h s).tree.insertSubDevice h.devicename =
      ofEntries (l.insertAll (c.names os)) := by
    rw [htree', insertSubDevice_ofEntries, DiagCall.names, hdev, Entries.insertAll, Entries.insertAll,
      List.foldl_append]
    rfl
  refine ⟨⟨h.type, if Masked os calls c then .correctable else .fatal, (c.knownDimms os).toFinset,
    h.detail⟩, ?_, ?_, ?_, ?_⟩
  · rw [instanceOf, hc]
  · unfold addHddError
    dsimp only
    rw [hinsert, hcauses, hdev]
    by_cases hm : Masked os calls c
    · have htrue := hmask.mpr hm
      rw [if_neg (by rw [htrue]; decide), if_pos hm]
      exact addErrorInstance_ofEntries _ hmem
    · have hfalse : (checkDimms os h s).maskHddError = false :=
        Bool.eq_false_iff.mpr fun hb => hm (hmask.mp hb)
      rw [if_pos hfalse, if_neg hm]
      exact addErrorInstance_ofEntries _ hmem
  · intro hm
    have htrue := hmask.mpr hm
    unfold addHddError
    dsimp only
    rw [if_neg (by rw [htrue]; decide)]
    exact ⟨rfl, rfl⟩
  · intro hm
    have hfalse : (checkDimms os h s).maskHddError = false :=
      Bool.eq_false_iff.mpr fun hb => hm (hmask.mp hb)
    unfold addHddError
    dsimp only
    rw [if_pos hfalse]
    exact ⟨rfl, rfl⟩

theorem call_hdd {h : HddError} (hc : c.hdd = some h) (s : ErrorDiag) :
    call os c s = addHddError os h s := by
  cases c with
  | cecc | uecc | miscompare => cases hc
  | hddMiscompare | hddSectorTag =>
      cases hc
      rfl

theorem call_dimm (os : OsFunctions) {error : ErrorInstance} (hc : c.dimm = some (c.device, error)) (s : ErrorDiag) :
    ∃ reports result, call os c s = addDimmError c.device error reports result s := by
  cases c with
  | cecc | uecc | miscompare =>
      cases hc
      exact ⟨_, _, rfl⟩
  | hddMiscompare | hddSectorTag => cases hc

/-- **The step lemma.** -/
theorem TreeInv.call (hinv : TreeInv os calls l) (hdistinct : Distinct os (calls ++ [c]))
    (htree : s.tree = ofEntries l) :
    ∃ l', (call os c s).1.tree = ofEntries l' ∧ TreeInv os (calls ++ [c]) l' := by
  rcases c.cases with ⟨error, hhdd, hdimm, -⟩ | ⟨h, hhdd, -, hdev⟩
  · have herror : instanceOf os calls c = some error := by rw [instanceOf, hhdd, hdimm]; rfl
    have hnames : c.names os = [c.device] := by rw [DiagCall.names, DiagCall.knownDimms, hhdd]; rfl
    obtain ⟨reports, result, hcall⟩ := call_dimm os hdimm s
    refine ⟨_, ?_, hinv.step herror⟩
    rw [hcall, addDimmError]
    dsimp only
    rw [htree, insertSubDevice_ofEntries, hnames]
    exact addErrorInstance_ofEntries _ (Entries.mem_insert.mpr (Or.inl rfl))
  · obtain ⟨error, herror, htree', -⟩ := addHddError_spec hinv hdistinct hhdd hdev htree
    refine ⟨_, ?_, hinv.step herror⟩
    rw [call_hdd hhdd]
    exact htree'

theorem Distinct.of_append {calls' : List DiagCall} (h : Distinct os (calls ++ calls')) :
    Distinct os calls := by
  intro c hc x hx c' hc'
  exact h c (List.mem_append_left _ hc) x hx c' (List.mem_append_left _ hc')

/-- The tree after any sequence of calls. -/
theorem run_inv (hdistinct : Distinct os calls) :
    ∃ l, (run os calls).tree = ofEntries l ∧ TreeInv os calls l := by
  induction calls using List.reverseRecOn with
  | nil => exact ⟨[], rfl, treeInv_nil⟩
  | append_singleton calls c ih =>
      obtain ⟨l, htree, hinv⟩ := ih hdistinct.of_append
      have hrun : run os (calls ++ [c]) = (call os c (run os calls)).1 := by
        rw [run, List.foldl_append]
        rfl
      rw [hrun]
      exact hinv.call hdistinct htree

end Calls

/-- **HDD error masking.** In every sequence of calls, an error of a disk is reported, exactly once
and with the return value 1, if neither of the DIMMs whose names are known has had an uncorrectable
error or a miscompare before it, and else not at all, with the return value 0. Each device is in the
tree exactly once, and its errors are those of the calls that name it, in their order. -/
theorem hdd_masking (os : OsFunctions) (calls : List DiagCall) (hdistinct : Distinct os calls) :
    (∀ pre c post h, calls = pre ++ c :: post → c.hdd = some h →
      let s := run os pre
      let r := call os c s
      ((∀ dimm ∈ c.knownDimms os, ∀ c' ∈ pre, ¬ c'.Blames dimm) ↔
        r.2 = 1 ∧ r.1.reports = s.reports ++ [⟨h.devicename, h.symptom, 1⟩]) ∧
      ((¬ ∀ dimm ∈ c.knownDimms os, ∀ c' ∈ pre, ¬ c'.Blames dimm) →
        r.2 = 0 ∧ r.1.reports = s.reports)) ∧
    (run os calls).tree.names.Nodup ∧
    (∀ name, name ∈ (run os calls).tree.names ↔ ∃ c ∈ calls, name ∈ c.names os) ∧
    ∀ name ∈ (run os calls).tree.names, ∃ device,
      (run os calls).tree.findInSubTree name = some device ∧ device.name = name ∧
      device.errors = attached os calls name := by
  constructor
  · intro pre c post h heq hhdd s r
    have hpre : Distinct os (pre ++ [c]) := by
      rw [heq, List.append_cons] at hdistinct
      exact hdistinct.of_append
    obtain ⟨l, htree, hinv⟩ := run_inv hpre.of_append
    have hdev : c.device = h.devicename := by
      rcases c.cases with ⟨error, hnone, -⟩ | ⟨h', hsome, -, hdev⟩
      · exact absurd (hnone.symm.trans hhdd) (Option.some_ne_none h).symm
      · rw [hdev, Option.some.inj (hsome.symm.trans hhdd)]
    obtain ⟨error, -, -, hmasked, hshown⟩ := addHddError_spec hinv hpre hhdd hdev htree
    rw [← call_hdd hhdd] at hmasked hshown
    have hnot : (∀ dimm ∈ c.knownDimms os, ∀ c' ∈ pre, ¬ c'.Blames dimm) ↔ ¬ Masked os pre c := by
      simp only [Masked, not_exists, not_and]
    rw [hnot, not_not]
    refine ⟨⟨hshown, ?_⟩, hmasked⟩
    intro hone hm
    have hzero := (hmasked hm).1
    rw [hone.1] at hzero
    exact absurd hzero (by decide)
  · obtain ⟨l, htree, hinv⟩ := run_inv hdistinct
    rw [htree, names_ofEntries]
    refine ⟨hinv.nodup, hinv.mem, ?_⟩
    intro name hname
    refine ⟨leaf (name, l.errorsOf name), ?_, rfl, hinv.errors name⟩
    rw [findInSubTree_ofEntries, if_pos hname]

/-- Physical addresses are virtual ones, and every address is in one DIMM. -/
def oneDimm : OsFunctions := ⟨id, fun _ => "DIMM0"⟩

/-- An error of the disk before and after an uncorrectable error of the DIMM. -/
def diskAround : List DiagCall :=
  [.hddMiscompare "sda" 0 0 0 4096, .uecc "DIMM0", .hddSectorTag "sda" 0 0 0 0 4096]

theorem hdd_masking_diskAround :
    (run oneDimm diskAround).tree.names.Nodup ∧
    (call oneDimm (.hddSectorTag "sda" 0 0 0 0 4096) (run oneDimm [.hddMiscompare "sda" 0 0 0 4096,
      .uecc "DIMM0"])).2 = 0 := by
  have hdistinct : Distinct oneDimm diskAround := by
    simp [Distinct, diskAround, DiagCall.hdd, DiagCall.dimm, DiagCall.knownDimms, hddMiscompare,
      hddSectorTag, HddError.srcDimm, HddError.dstDimm, addressToDimmString, oneDimm]
  have hall := hdd_masking oneDimm diskAround hdistinct
  refine ⟨hall.2.1, ((hall.1 _ _ [] _ rfl rfl).2 ?_).1⟩
  simp [DiagCall.knownDimms, DiagCall.hdd, hddSectorTag, HddError.srcDimm, HddError.dstDimm,
    addressToDimmString, oneDimm, DiagCall.Blames]

end StressAppTest.Diag
