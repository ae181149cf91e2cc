import Mathlib.Data.Finset.Insert
import Mathlib.Data.List.Nodup
import StressAppTest.Pattern

/-!
# The device tree (`DeviceTree`, `error_diag.cc`)

A device has sub devices and a list of errors. It is searched for by name, first among the sub devices
and then in their trees, and a device that is not found is inserted at the top. The pointers that the
searches return are used for the device found and no longer, so that a device is its name here.

A map of names has each name once, and `InsertSubDevice` inserts a device under its own name; the
order of the map is not modelled, the searches do not depend on it (`findInSubTree_ofEntries`).
`ofEntries` is what the tree stands for: names with the errors of each.
-/

namespace StressAppTest.Diag

inductive SATErrorType
  | none
  | ecc
  | miscompare
  | sectorTag
  deriving DecidableEq, Repr

inductive SATErrorSeverity
  | correctable
  | fatal
  deriving DecidableEq, Repr

/-- The fields that the classes derived from `ErrorInstance` set. -/
inductive ErrorDetail
  | ecc
  | miscompare (addr : Word64)
  | hddMiscompare (addr addr2 : Word64) (offset block : Int)
  | hddSectorTag (addr addr2 : Word64) (sector block : Int)
  deriving DecidableEq

/-- `ErrorInstance`; `causes` are the names of the devices. -/
structure ErrorInstance where
  type : SATErrorType
  severity : SATErrorSeverity
  causes : Finset String
  detail : ErrorDetail
  deriving DecidableEq

inductive DeviceTree
  | device (name : String) (subdevices : List DeviceTree) (errors : List ErrorInstance)

namespace DeviceTree

def name : DeviceTree → String
  | device name _ _ => name

def errors : DeviceTree → List ErrorInstance
  | device _ _ errors => errors

/-- `new DeviceTree(name)` -/
def new (name : String) : DeviceTree := device name [] []

mutual

/-- `DeviceTree::UnlockedFindInSubTree` -/
def findInSubTree (name : String) : DeviceTree → Option DeviceTree
  | device _ subdevices _ =>
    match subdevices.find? fun d => d.name == name with
    | some d => some d
    | none => findInSubTrees name subdevices

/-- The search of the sub-trees, one after the other. -/
def findInSubTrees (name : String) : List DeviceTree → Option DeviceTree
  | [] => none
  | d :: ds =>
    match findInSubTree name d with
    | some result => some result
    | none => findInSubTrees name ds

end

/-- `DeviceTree::InsertSubDevice` -/
def insertSubDevice (name : String) (t : DeviceTree) : DeviceTree :=
  if (t.findInSubTree name).isSome then t
  else
    match t with
    | device n subdevices errors => device n (subdevices ++ [new name]) errors

mutual

/-- The tree after `AddErrorInstance` of the device that `findInSubTree` returns. -/
def addErrorInstance (name : String) (error : ErrorInstance) : DeviceTree → DeviceTree
  | device n subdevices errors =>
    if subdevices.any fun d => d.name == name then
      device n (addToFirst name error subdevices) errors
    else device n (addInSubTrees name error subdevices) errors

/-- The sub device of that name. -/
def addToFirst (name : String) (error : ErrorInstance) : List DeviceTree → List DeviceTree
  | [] => []
  | device n subdevices errors :: ds =>
    if n == name then device n subdevices (errors ++ [error]) :: ds
    else device n subdevices errors :: addToFirst name error ds

/-- The first sub-tree in which the device is found. -/
def addInSubTrees (name : String) (error : ErrorInstance) : List DeviceTree → List DeviceTree
  | [] => []
  | d :: ds =>
    if (findInSubTree name d).isSome then addErrorInstance name error d :: ds
    else d :: addInSubTrees name error ds

end

/-- `DeviceTree::KnownBad` -/
def knownBad (t : DeviceTree) : Bool := t.errors.any fun error => error.severity == .fatal

mutual

/-- The names of all devices below the root, as `PrettyPrint` shows them. -/
def names : DeviceTree → List String
  | device _ subdevices _ => namesOfSubTrees subdevices

def namesOfSubTrees : List DeviceTree → List String
  | [] => []
  | d :: ds => d.name :: (names d ++ namesOfSubTrees ds)

end

/-! ## Trees of one level -/

/-- Devices below the root, with the errors of each. -/
abbrev Entries := List (String × List ErrorInstance)

def leaf (e : String × List ErrorInstance) : DeviceTree := device e.1 [] e.2

/-- The tree that has these devices below its root. -/
def ofEntries (l : Entries) : DeviceTree := device "system_root" (l.map leaf) []

namespace Entries

def insert (name : String) (l : Entries) : Entries :=
  if name ∈ l.map Prod.fst then l else l ++ [(name, [])]

def add (name : String) (error : ErrorInstance) : Entries → Entries
  | [] => []
  | e :: l => if e.1 = name then (e.1, e.2 ++ [error]) :: l else e :: add name error l

def errorsOf (name : String) : Entries → List ErrorInstance
  | [] => []
  | e :: l => if e.1 = name then e.2 else errorsOf name l

variable {l : Entries} {name other : String} {error : ErrorInstance}

theorem mem_insert : other ∈ (l.insert name).map Prod.fst ↔ other = name ∨ other ∈ l.map Prod.fst := by
  unfold insert
  by_cases h : name ∈ l.map Prod.fst
  · rw [if_pos h]
    constructor
    · exact Or.inr
    · intro hor
      rcases hor with heq | hmem
      · rwa [heq]
      · exact hmem
  · rw [if_neg h, List.map_append, List.mem_append, List.map_singleton, List.mem_singleton, or_comm]

theorem nodup_insert (h : (l.map Prod.fst).Nodup) : ((l.insert name).map Prod.fst).Nodup := by
  unfold insert
  by_cases hmem : name ∈ l.map Prod.fst
  · rwa [if_pos hmem]
  · rw [if_neg hmem, List.map_append, List.map_singleton, ← List.concat_eq_append]
    exact h.concat hmem

theorem errorsOf_append_new : (l ++ [(name, [])] : Entries).errorsOf other = l.errorsOf other := by
  induction l with
  | nil =>
      change (if name = other then [] else []) = _
      exact ite_self _
  | cons e l ih =>
      rw [List.cons_append, errorsOf, errorsOf, ih]

/-- A new device has no errors. -/
theorem errorsOf_insert : (l.insert name).errorsOf other = l.errorsOf other := by
  unfold insert
  split
  · rfl
  · exact errorsOf_append_new

/-- The devices `ds` are inserted one after the other. -/
def insertAll (ds : List String) (l : Entries) : Entries := ds.foldl (fun l d => l.insert d) l

theorem mem_insertAll {ds : List String} :
    other ∈ (l.insertAll ds).map Prod.fst ↔ other ∈ ds ∨ other ∈ l.map Prod.fst := by
  induction ds generalizing l with
  | nil => simp [insertAll]
  | cons d ds ih =>
      change other ∈ ((l.insert d).insertAll ds).map Prod.fst ↔ _
      rw [ih, mem_insert, List.mem_cons, or_left_comm, or_assoc]

theorem nodup_insertAll {ds : List String} (h : (l.map Prod.fst).Nodup) :
    ((l.insertAll ds).map Prod.fst).Nodup := by
  induction ds generalizing l with
  | nil => exact h
  | cons d ds ih => exact ih (nodup_insert h)

theorem errorsOf_insertAll {ds : List String} : (l.insertAll ds).errorsOf other = l.errorsOf other := by
  induction ds generalizing l with
  | nil => rfl
  | cons d ds ih => exact ih.trans errorsOf_insert

theorem map_add : (l.add name error).map Prod.fst = l.map Prod.fst := by
  induction l with
  | nil => rfl
  | cons e l ih =>
      unfold add
      split
      · rfl
      · rw [List.map_cons, List.map_cons, ih]

/-- An error is attached to the device of that name, and to no other. -/
theorem errorsOf_add (h : name ∈ l.map Prod.fst) :
    (l.add name error).errorsOf other = l.errorsOf other ++ if other = name then [error] else [] := by
  induction l with
  | nil => cases h
  | cons e l ih =>
      unfold add
      by_cases hname : e.1 = name
      · rw [if_pos hname, errorsOf, errorsOf, hname]
        by_cases hother : name = other
        · rw [if_pos hother, if_pos hother, if_pos hother.symm]
        · rw [if_neg hother, if_neg hother, if_neg (Ne.symm hother), List.append_nil]
      · have hmem : name ∈ l.map Prod.fst := (List.mem_cons.mp h).resolve_left (Ne.symm hname)
        rw [if_neg hname, errorsOf, errorsOf]
        by_cases hother : e.1 = other
        · rw [if_pos hother, if_pos hother, if_neg (hother ▸ hname), List.append_nil]
        · rw [if_neg hother, if_neg hother, ih hmem]

end Entries

variable {l : Entries} {name : String}

/-- A tree without sub devices is searched in vain. -/
theorem findInSubTrees_leaves (l : Entries) : findInSubTrees name (l.map leaf) = none := by
  induction l with
  | nil => simp [findInSubTrees]
  | cons e l ih =>
      have hleaf : findInSubTree name (leaf e) = none := by
        simp [leaf, findInSubTree, findInSubTrees]
      rw [List.map_cons, findInSubTrees, hleaf]
      exact ih

theorem find_leaves (l : Entries) :
    (l.map leaf).find? (fun d => d.name == name) =
      if name ∈ l.map Prod.fst then some (leaf (name, l.errorsOf name)) else none := by
  induction l with
  | nil => rfl
  | cons e l ih =>
      rw [List.map_cons, List.find?_cons, List.map_cons, Entries.errorsOf]
      by_cases h : e.1 = name
      · subst h
        rw [if_pos rfl, if_pos List.mem_cons_self, show ((leaf e).name == e.1) = true from beq_self_eq_true _]
      · have hne : ((leaf e).name == name) = false := beq_eq_false_iff_ne.mpr h
        rw [hne, ih, if_neg h]
        apply if_congr _ rfl rfl
        rw [List.mem_cons, or_iff_right (Ne.symm h)]

/-- **The search** finds the device of that name, with its errors. -/
theorem findInSubTree_ofEntries (l : Entries) : findInSubTree name (ofEntries l) =
    if name ∈ l.map Prod.fst then some (leaf (name, l.errorsOf name)) else none := by
  rw [ofEntries, findInSubTree, find_leaves]
  by_cases h : name ∈ l.map Prod.fst
  · rw [if_pos h]
  · rw [if_neg h]
    exact findInSubTrees_leaves l

theorem insertSubDevice_ofEntries (l : Entries) :
    insertSubDevice name (ofEntries l) = ofEntries (l.insert name) := by
  unfold insertSubDevice
  rw [findInSubTree_ofEntries, Entries.insert]
  by_cases h : name ∈ l.map Prod.fst
  · rw [if_pos h, if_pos h]
    rfl
  · rw [if_neg h, if_neg h, ofEntries, ofEntries, List.map_append]
    rfl

theorem addToFirst_leaves (error : ErrorInstance) (l : Entries) :
    addToFirst name error (l.map leaf) = (l.add name error).map leaf := by
  induction l with
  | nil => simp [addToFirst, Entries.add]
  | cons e l ih =>
      rw [List.map_cons, leaf, addToFirst, Entries.add, ih]
      by_cases h : e.1 = name
      · rw [if_pos (beq_iff_eq.mpr h), if_pos h]
        rfl
      · rw [if_neg (fun heq => h (beq_iff_eq.mp heq)), if_neg h]
        rfl

theorem addErrorInstance_ofEntries (error : ErrorInstance) (h : name ∈ l.map Prod.fst) :
    addErrorInstance name error (ofEntries l) = ofEntries (l.add name error) := by
  have hany : ((l.map leaf).any fun d => d.name == name) = true := by
    obtain ⟨e, he, hname⟩ := List.mem_map.mp h
    apply List.any_eq_true.mpr
    exact ⟨leaf e, List.mem_map_of_mem he, beq_iff_eq.mpr hname⟩
  rw [ofEntries, addErrorInstance, if_pos hany, addToFirst_leaves]
  rfl

theorem names_ofEntries (l : Entries) : names (ofEntries l) = l.map Prod.fst := by
  rw [ofEntries, names]
  induction l with
  | nil => rw [List.map_nil, namesOfSubTrees]; rfl
  | cons e l ih =>
      rw [List.map_cons, namesOfSubTrees, ih, leaf, names, namesOfSubTrees]
      rfl

end DeviceTree

end StressAppTest.Diag
