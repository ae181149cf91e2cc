import StressAppTest.Control.Options

/-!
# The `--dram-map` option, seen twice (`PrepareDramMapArgs`, `ParseArgs`)

Before `ParseArgs` runs, `PrepareDramMapArgs` looks for `--dram-map` in the same arguments, renames
the public profile and sets the flag of the logger. It knows no other option, so for it the value
`--dram-map` of another option is an option too, and takes what follows. Both scanners are compared
on the `items` that `ParseArgs` makes of the arguments: `loggerFlag` is what the first computes and
`lastProfile` what the second does (`scanners_items`).
-/

namespace StressAppTest.Control

/-- The loop of `PrepareDramMapArgs`: the flag and the changed arguments, or `none` if it refuses. -/
def prepareLoop (enabled : Bool) : List String → Option (Bool × List String)
  | [] => some (enabled, [])
  | [arg] => some (enabled, [arg])
  | arg :: next :: rest =>
      if arg ≠ "--dram-map" then
        (prepareLoop enabled (next :: rest)).map fun r => (r.1, arg :: r.2)
      else if next = "lpddr-v1" then none
      else if next = "sm8975-lp6" then
        (prepareLoop true rest).map fun r => (r.1, arg :: "lpddr-v1" :: r.2)
      else (prepareLoop false rest).map fun r => (r.1, arg :: next :: r.2)

/-- `PrepareDramMapArgs`, without the name of the program. -/
def prepareDramMapArgs (args : List String) : Option (Bool × List String) := prepareLoop false args

/-! ## The items -/

def Kind.isFlag : Kind → Bool
  | kvalue _ _ | coarseGrainLock => true
  | _ => false

def Kind.isDramMap : Kind → Bool
  | dramMap => true
  | _ => false

def takesValue (arg : String) : Bool := ((kindOf arg).map fun kind => !kind.isFlag).getD false

/-- The options with their values, as `ParseArgs` takes them from the arguments. -/
def items : List String → List (String × Option String)
  | [] => []
  | arg :: rest =>
      if takesValue arg then
        match rest with
        | [] => [(arg, none)]
        | v :: rest => (arg, some v) :: items rest
      else (arg, none) :: items rest

/-- Another option with the value `--dram-map`. -/
def Masks (x : String × Option String) : Prop := x.1 ≠ "--dram-map" ∧ x.2 = some "--dram-map"

instance : DecidablePred Masks := fun _ => inferInstanceAs (Decidable (_ ∧ _))

/-- What `ParseArgs` leaves of a profile. -/
def lastProfile (profile : DramAddressMapProfile) :
    List (String × Option String) → DramAddressMapProfile
  | [] => profile
  | x :: rest =>
      lastProfile
        (if x.1 = "--dram-map" then if x.2 = some "none" then .none else .sm8975Lp6 else profile) rest

/-- What `PrepareDramMapArgs` makes of its flag; `ahead` says that it has passed over the first
argument of the items already. -/
def loggerFlag (enabled ahead : Bool) : List (String × Option String) → Bool
  | [] => enabled
  | x :: rest =>
      if x.1 = "--dram-map" then
        loggerFlag (if ahead then enabled else x.2 ≠ some "none") false rest
      else if x.2 = some "--dram-map" ∧ rest ≠ [] then loggerFlag false true rest
      else loggerFlag enabled false rest

/-! ## One option -/

theorem kindOf_dramMap : kindOf "--dram-map" = some .dramMap := rfl

theorem kindOf_internal : kindOf "lpddr-v1" = none := rfl

theorem eq_of_kindOf_dramMap {arg : String} (h : kindOf arg = some .dramMap) : arg = "--dram-map" := by
  have honly : ∀ e ∈ earlyOptions ++ lateOptions, e.2.isDramMap = true → e.1 = "--dram-map" := by
    decide
  exact honly _ (kindOf_mem h) rfl

section Profile

variable {o o' : Options} {kind : Kind}

theorem Options.injecting_profile (o : Options) (arg : String) :
    (o.injecting arg).dramAddressMapProfile = o.dramAddressMapProfile := by
  unfold Options.injecting
  split <;> rfl

theorem flag_profile (h : kind.flag o = some o') :
    kind.isFlag = true ∧ o'.dramAddressMapProfile = o.dramAddressMapProfile := by
  cases kind <;> cases h <;> exact ⟨rfl, rfl⟩

theorem isFlag_of_flag_none (h : kind.flag o = none) : kind.isFlag = false := by
  cases kind <;> first | rfl | cases h

theorem store_profile {v : String} (h : kind.store o v = .ok o') (hkind : kind ≠ .dramMap) :
    o'.dramAddressMapProfile = o.dramAddressMapProfile := by
  unfold Kind.store at h
  cases kind
  case dramMap => exact absurd rfl hkind
  all_goals
    dsimp only at h
    repeat' split at h
    all_goals cases h
    all_goals rfl

theorem store_dramMap {v : String} (h : Kind.dramMap.store o v = .ok o') :
    (v = "lpddr-v1" ∧ o'.dramAddressMapProfile = .sm8975Lp6) ∨
      (v = "none" ∧ o'.dramAddressMapProfile = .none) := by
  unfold Kind.store at h
  dsimp only at h
  split at h
  · next hv =>
      cases h
      exact Or.inl ⟨hv, rfl⟩
  · split at h
    · next hv =>
        cases h
        exact Or.inr ⟨hv, rfl⟩
    · cases h

end Profile

/-- What the loop of `ParseArgs` does with the first option, as far as the profile goes. -/
inductive FirstOption (o o' : Options) (arg : String) : List String → Prop
  | flag {rest : List String} {o₁ : Options} (hkind : takesValue arg = false)
      (hprofile : o₁.dramAddressMapProfile = o.dramAddressMapProfile)
      (hrest : parseLoop o₁ rest = .ok o') : FirstOption o o' arg rest
  | missing (hkind : takesValue arg = true) (harg : arg ≠ "--dram-map")
      (hprofile : o'.dramAddressMapProfile = o.dramAddressMapProfile) : FirstOption o o' arg []
  | value {v : String} {rest : List String} {o₁ : Options} (hkind : takesValue arg = true)
      (harg : arg ≠ "--dram-map") (hprofile : o₁.dramAddressMapProfile = o.dramAddressMapProfile)
      (hrest : parseLoop o₁ rest = .ok o') : FirstOption o o' arg (v :: rest)
  | dramMap {v : String} {rest : List String} {o₁ : Options} (harg : arg = "--dram-map")
      (hprofile : (v = "lpddr-v1" ∧ o₁.dramAddressMapProfile = .sm8975Lp6) ∨
        (v = "none" ∧ o₁.dramAddressMapProfile = .none))
      (hrest : parseLoop o₁ rest = .ok o') : FirstOption o o' arg (v :: rest)

theorem takesValue_eq {arg : String} {kind : Kind} (h : kindOf arg = some kind) :
    takesValue arg = !kind.isFlag := by
  rw [takesValue, h]
  rfl

theorem firstOption {o o' : Options} {arg : String} {rest : List String}
    (h : parseLoop o (arg :: rest) = .ok o') : FirstOption o o' arg rest := by
  have hinjecting := o.injecting_profile arg
  rw [parseLoop] at h
  split at h
  · cases h
  · next kind hkind =>
      have htakes := takesValue_eq hkind
      split at h
      · next o₁ hset =>
          obtain ⟨hflag, hprofile⟩ := flag_profile hset
          rw [hflag] at htakes
          exact .flag htakes (hprofile.trans hinjecting) h
      · next hset =>
          rw [isFlag_of_flag_none hset] at htakes
          split at h
          · cases h
          · next hmissing =>
              cases h
              refine .missing htakes ?_ hinjecting
              intro harg
              rw [harg, kindOf_dramMap] at hkind
              cases hkind
              cases hmissing
      · next v rest hset =>
          rw [isFlag_of_flag_none hset] at htakes
          split at h
          · next o₁ hstored =>
              by_cases harg : arg = "--dram-map"
              · rw [harg, kindOf_dramMap] at hkind
                cases hkind
                exact .dramMap harg (store_dramMap hstored) h
              · refine .value htakes harg ((store_profile hstored ?_).trans hinjecting) h
                rintro rfl
                exact harg (eq_of_kindOf_dramMap hkind)
          · cases h

/-! ## Both scanners on the items -/

theorem takesValue_dramMap : takesValue "--dram-map" = true := rfl

theorem items_flag {arg : String} (h : takesValue arg = false) (rest : List String) :
    items (arg :: rest) = (arg, none) :: items rest := by
  rw [items.eq_def]
  dsimp only
  rw [h, if_neg Bool.false_ne_true]

theorem items_missing {arg : String} (h : takesValue arg = true) : items [arg] = [(arg, none)] := by
  rw [items, if_pos h]

theorem items_value {arg : String} (h : takesValue arg = true) (v : String) (rest : List String) :
    items (arg :: v :: rest) = (arg, some v) :: items rest := by
  rw [items, if_pos h]

theorem items_ne_nil {args : List String} (h : args ≠ []) : items args ≠ [] := by
  obtain ⟨arg, rest, rfl⟩ := List.exists_cons_of_ne_nil h
  by_cases htakes : takesValue arg = true
  · cases rest with
    | nil => simp [items_missing htakes]
    | cons v rest => simp [items_value htakes]
  · simp [items_flag (Bool.eq_false_iff.mpr htakes)]

theorem loggerFlag_ahead {x : String × Option String} (h : x.1 ≠ "--dram-map") (enabled : Bool)
    (rest : List (String × Option String)) :
    loggerFlag enabled true (x :: rest) = loggerFlag enabled false (x :: rest) := by
  simp only [loggerFlag, if_neg h]

section Prepare

variable {enabled enabled' : Bool} {arg next : String} {rest args' : List String}

/-- Any other argument is passed over. -/
theorem prepareLoop_cons (h : prepareLoop enabled (arg :: rest) = some (enabled', args'))
    (harg : arg ≠ "--dram-map") :
    ∃ rest', args' = arg :: rest' ∧ prepareLoop enabled rest = some (enabled', rest') := by
  cases rest with
  | nil =>
      cases h
      exact ⟨[], rfl, rfl⟩
  | cons next rest =>
      rw [prepareLoop, if_pos harg, Option.map_eq_some_iff] at h
      obtain ⟨r, hr, heq⟩ := h
      cases heq
      exact ⟨r.2, rfl, hr⟩

theorem prepareLoop_dramMap
    (h : prepareLoop enabled ("--dram-map" :: next :: rest) = some (enabled', args')) :
    next ≠ "lpddr-v1" ∧ ∃ rest',
      (next = "sm8975-lp6" ∧ args' = "--dram-map" :: "lpddr-v1" :: rest' ∧
        prepareLoop true rest = some (enabled', rest')) ∨
      (next ≠ "sm8975-lp6" ∧ args' = "--dram-map" :: next :: rest' ∧
        prepareLoop false rest = some (enabled', rest')) := by
  rw [prepareLoop, if_neg (not_not.mpr rfl)] at h
  split at h
  · cases h
  next hremoved =>
  refine ⟨hremoved, ?_⟩
  split at h
  · next hpublic =>
      rw [Option.map_eq_some_iff] at h
      obtain ⟨r, hr, heq⟩ := h
      cases heq
      exact ⟨r.2, Or.inl ⟨hpublic, rfl, hr⟩⟩
  · next hother =>
      rw [Option.map_eq_some_iff] at h
      obtain ⟨r, hr, heq⟩ := h
      cases heq
      exact ⟨r.2, Or.inr ⟨hother, rfl, hr⟩⟩

theorem prepareLoop_nil (h : prepareLoop enabled rest = some (enabled', [])) :
    rest = [] ∧ enabled' = enabled := by
  cases rest with
  | nil =>
      cases h
      exact ⟨rfl, rfl⟩
  | cons arg rest =>
      by_cases harg : arg = "--dram-map"
      · subst harg
        cases rest with
        | nil => cases h
        | cons next rest =>
            obtain ⟨_, _, ⟨_, hargs, _⟩ | ⟨_, hargs, _⟩⟩ := prepareLoop_dramMap h
            · cases hargs
            · cases hargs
      · obtain ⟨_, hargs, _⟩ := prepareLoop_cons h harg
        cases hargs

end Prepare

/-- The two scanners have come to what is computed on the items. -/
def Agrees (enabled ahead enabled' : Bool) (o o' : Options) (l : List (String × Option String)) :
    Prop :=
  enabled' = loggerFlag enabled ahead l ∧
    o'.dramAddressMapProfile = lastProfile o.dramAddressMapProfile l

/-- They start at the same argument. -/
def AgreeFrom (args : List String) : Prop :=
  ∀ enabled enabled' args' o o', prepareLoop enabled args = some (enabled', args') →
    parseLoop o args' = .ok o' → Agrees enabled false enabled' o o' (items args)

/-- `PrepareDramMapArgs` is one argument ahead. -/
def AgreeAfter (arg : String) (rest : List String) : Prop :=
  ∀ enabled enabled' rest' o o', prepareLoop enabled rest = some (enabled', rest') →
    parseLoop o (arg :: rest') = .ok o' → Agrees enabled true enabled' o o' (items (arg :: rest))

section Scanners

variable {enabled enabled' : Bool} {o o₁ o' : Options} {v : String} {r rest' : List String}

/-- **A value** is passed over by `PrepareDramMapArgs`, or it looks like `--dram-map`, and then what
follows it is taken for the profile. -/
theorem agrees_value (hfrom : AgreeFrom r) (hafter : ∀ u r₂, r = u :: r₂ → AgreeAfter u r₂)
    (hprepare : prepareLoop enabled (v :: r) = some (enabled', rest')) :
    ∃ r', rest' = v :: r' ∧ (parseLoop o₁ r' = .ok o' →
      if v = "--dram-map" ∧ items r ≠ [] then Agrees false true enabled' o₁ o' (items r)
      else Agrees enabled false enabled' o₁ o' (items r)) := by
  by_cases hv : v = "--dram-map"
  · subst hv
    cases r with
    | nil =>
        cases hprepare
        refine ⟨[], rfl, ?_⟩
        intro hparse
        cases hparse
        exact ⟨rfl, rfl⟩
    | cons u r₂ =>
        obtain ⟨_, r₂', ⟨_, rfl, _⟩ | ⟨_, rfl, hrest⟩⟩ := prepareLoop_dramMap hprepare
        · -- the renamed profile is no option
          refine ⟨_, rfl, ?_⟩
          intro hparse
          rw [parseLoop, kindOf_internal] at hparse
          cases hparse
        · refine ⟨_, rfl, ?_⟩
          intro hparse
          rw [if_pos ⟨rfl, items_ne_nil (List.cons_ne_nil u r₂)⟩]
          exact hafter u r₂ rfl _ _ _ _ _ hrest hparse
  · obtain ⟨r', rfl, hrest⟩ := prepareLoop_cons hprepare hv
    refine ⟨r', rfl, ?_⟩
    intro hparse
    rw [if_neg fun h => hv h.1]
    exact hfrom _ _ _ _ _ hrest hparse

end Scanners

/-- One argument ahead, from what holds of the shorter lists. -/
theorem agreeAfter_of_shorter {arg : String} {rest : List String} (hfrom : AgreeFrom rest)
    (hshorter : ∀ v r, rest = v :: r → AgreeFrom r ∧ ∀ u r₂, r = u :: r₂ → AgreeAfter u r₂) :
    AgreeAfter arg rest := by
  intro enabled enabled' rest' o o' hprepare hparse
  cases firstOption hparse with
  | flag hkind hprofile hrest =>
      have harg : arg ≠ "--dram-map" := by
        rintro rfl
        cases hkind
      obtain ⟨hflag, hlast⟩ := hfrom _ _ _ _ _ hprepare hrest
      rw [items_flag hkind]
      refine ⟨?_, ?_⟩
      · rw [loggerFlag, if_neg harg, if_neg (by simp), hflag]
      · rw [lastProfile, if_neg harg, hlast, hprofile]
  | missing hkind harg hprofile =>
      obtain ⟨rfl, rfl⟩ := prepareLoop_nil hprepare
      rw [items_missing hkind]
      refine ⟨?_, ?_⟩
      · rw [loggerFlag, if_neg harg, if_neg (by simp), loggerFlag]
      · rw [lastProfile, if_neg harg, lastProfile, hprofile]
  | @value v' r' o₁ hkind harg hprofile hrest =>
      cases rest with
      | nil => cases hprepare
      | cons v r =>
          obtain ⟨hfrom', hafter'⟩ := hshorter v r rfl
          obtain ⟨_, heq, hagrees⟩ := agrees_value hfrom' hafter' hprepare
          cases heq
          have hagrees := hagrees hrest
          rw [items_value hkind]
          by_cases hmask : v' = "--dram-map" ∧ items r ≠ []
          · rw [if_pos hmask] at hagrees
            refine ⟨?_, ?_⟩
            · rw [loggerFlag, if_neg harg, if_pos ⟨congrArg some hmask.1, hmask.2⟩, hagrees.1]
            · rw [lastProfile, if_neg harg, hagrees.2, hprofile]
          · rw [if_neg hmask] at hagrees
            refine ⟨?_, ?_⟩
            · rw [loggerFlag, if_neg harg, if_neg (by simpa using hmask), hagrees.1]
            · rw [lastProfile, if_neg harg, hagrees.2, hprofile]
  | @dramMap v' r' o₁ harg hprofile hrest =>
      subst harg
      cases rest with
      | nil => cases hprepare
      | cons v r =>
          obtain ⟨hfrom', hafter'⟩ := hshorter v r rfl
          obtain ⟨_, heq, hagrees⟩ := agrees_value hfrom' hafter' hprepare
          cases heq
          have hagrees := hagrees hrest
          have hv : v' ≠ "--dram-map" := by
            rintro rfl
            obtain ⟨hbad, _⟩ | ⟨hbad, _⟩ := hprofile
            · exact absurd hbad (by decide)
            · exact absurd hbad (by decide)
          rw [if_neg fun h => hv h.1] at hagrees
          rw [items_value takesValue_dramMap]
          refine ⟨?_, ?_⟩
          · rw [loggerFlag, if_pos rfl, if_pos rfl, hagrees.1]
          · rw [lastProfile, if_pos rfl, hagrees.2]
            obtain ⟨rfl, hprofile⟩ | ⟨rfl, hprofile⟩ := hprofile
            · rw [hprofile, if_neg (by decide)]
            · rw [hprofile, if_pos rfl]

/-- From the same argument: before `--dram-map` both take the profile, else it makes no difference
to be ahead. -/
theorem agreeFrom_of_after {arg : String} {rest : List String} (hafter : AgreeAfter arg rest)
    (hshorter : ∀ v r, rest = v :: r → AgreeFrom r) : AgreeFrom (arg :: rest) := by
  intro enabled enabled' args' o o' hprepare hparse
  by_cases harg : arg = "--dram-map"
  · subst harg
    cases rest with
    | nil =>
        cases hprepare
        cases firstOption hparse with
        | flag hkind => cases hkind
        | missing _ harg => exact absurd rfl harg
    | cons next r =>
        have hfrom := hshorter next r rfl
        rw [items_value takesValue_dramMap]
        obtain ⟨hremoved, r', ⟨rfl, rfl, hrest⟩ | ⟨_, rfl, hrest⟩⟩ := prepareLoop_dramMap hprepare
        · cases firstOption hparse with
          | flag hkind => cases hkind
          | value _ harg => exact absurd rfl harg
          | dramMap _ hprofile hrest' =>
              obtain ⟨hflag, hlast⟩ := hfrom _ _ _ _ _ hrest hrest'
              obtain ⟨_, hprofile⟩ | ⟨hbad, _⟩ := hprofile
              · refine ⟨?_, ?_⟩
                · rw [loggerFlag, if_pos rfl, hflag]
                  rfl
                · rw [lastProfile, if_pos rfl, if_neg (by decide), hlast, hprofile]
              · exact absurd hbad (by decide)
        · cases firstOption hparse with
          | flag hkind => cases hkind
          | value _ harg => exact absurd rfl harg
          | dramMap _ hprofile hrest' =>
              obtain ⟨hflag, hlast⟩ := hfrom _ _ _ _ _ hrest hrest'
              obtain ⟨hbad, _⟩ | ⟨rfl, hprofile⟩ := hprofile
              · exact absurd hbad hremoved
              · refine ⟨?_, ?_⟩
                · rw [loggerFlag, if_pos rfl, hflag]
                  rfl
                · rw [lastProfile, if_pos rfl, if_pos rfl, hlast, hprofile]
  · obtain ⟨rest', rfl, hrest⟩ := prepareLoop_cons hprepare harg
    obtain ⟨hflag, hlast⟩ := hafter _ _ _ _ _ hrest hparse
    refine ⟨hflag.trans ?_, hlast⟩
    by_cases htakes : takesValue arg = true
    · cases rest with
      | nil => rw [items_missing htakes, loggerFlag_ahead harg]
      | cons v r => rw [items_value htakes, loggerFlag_ahead harg]
    · rw [items_flag (Bool.eq_false_iff.mpr htakes), loggerFlag_ahead harg]

/-- **Both scanners** compute what `loggerFlag` and `lastProfile` say on the items. -/
theorem scanners_items (args : List String) :
    AgreeFrom args ∧ ∀ arg rest, args = arg :: rest → AgreeAfter arg rest := by
  induction hn : args.length using Nat.strongRecOn generalizing args with
  | ind n ih =>
      cases args with
      | nil =>
          refine ⟨?_, fun arg rest h => absurd h (List.cons_ne_nil arg rest).symm⟩
          intro enabled enabled' args' o o' hprepare hparse
          cases hprepare
          cases hparse
          exact ⟨rfl, rfl⟩
      | cons arg rest =>
          rw [List.length_cons] at hn
          have hafter : AgreeAfter arg rest := by
            apply agreeAfter_of_shorter (ih _ (by omega) rest rfl).1
            intro v r hr
            exact ih r.length (by rw [hr, List.length_cons] at hn; omega) r rfl
          refine ⟨agreeFrom_of_after hafter ?_, ?_⟩
          · intro v r hr
            exact (ih r.length (by rw [hr, List.length_cons] at hn; omega) r rfl).1
          · intro arg' rest' heq
            cases heq
            exact hafter

/-! ## When they agree -/

/-- A profile has been chosen last, and there is another option with the value `--dram-map` right
before it, or after it and not at the very end. -/
def Overlooked (l : List (String × Option String)) : Prop :=
  ∃ before v after, l = before ++ ("--dram-map", v) :: after ∧ (∀ x ∈ after, x.1 ≠ "--dram-map") ∧
    v ≠ some "none" ∧ ((∃ x ∈ before.getLast?, Masks x) ∨ ∃ x ∈ after.dropLast, Masks x)

/-- The scanner is ahead after these items, when others follow. -/
def aheadAfter (ahead : Bool) (before : List (String × Option String)) : Bool :=
  (before.getLast?.map fun x => decide (Masks x)).getD ahead

theorem aheadAfter_cons (ahead : Bool) (x : String × Option String)
    (before : List (String × Option String)) :
    aheadAfter ahead (x :: before) = aheadAfter (decide (Masks x)) before := by
  unfold aheadAfter
  rw [List.getLast?_cons]
  cases before.getLast? <;> rfl

/-- The last `--dram-map` decides, unless the scanner is ahead there. -/
theorem loggerFlag_append {enabled ahead : Bool} (hahead : ahead = true → enabled = false)
    (before after : List (String × Option String)) (v : Option String) :
    loggerFlag enabled ahead (before ++ ("--dram-map", v) :: after) =
      loggerFlag (!aheadAfter ahead before && decide (v ≠ some "none")) false after := by
  induction before generalizing enabled ahead with
  | nil =>
      rw [List.nil_append, loggerFlag, if_pos rfl]
      cases ahead with
      | true =>
          rw [hahead rfl]
          rfl
      | false => rfl
  | cons x before ih =>
      rw [List.cons_append, loggerFlag, aheadAfter_cons]
      by_cases hx : x.1 = "--dram-map"
      · have hmasks : ¬ Masks x := fun h => h.1 hx
        rw [if_pos hx, decide_eq_false hmasks]
        exact ih fun hfalse => absurd hfalse Bool.false_ne_true
      · rw [if_neg hx]
        by_cases hvalue : x.2 = some "--dram-map"
        · have hmasks : Masks x := ⟨hx, hvalue⟩
          rw [if_pos ⟨hvalue, by simp⟩, decide_eq_true hmasks]
          exact ih fun _ => rfl
        · have hmasks : ¬ Masks x := fun h => hvalue h.2
          rw [if_neg fun h => hvalue h.1, decide_eq_false hmasks]
          exact ih fun hfalse => absurd hfalse Bool.false_ne_true

/-- Afterwards the flag can only be lost. -/
theorem loggerFlag_after {enabled ahead : Bool} {after : List (String × Option String)}
    (hafter : ∀ x ∈ after, x.1 ≠ "--dram-map") :
    loggerFlag enabled ahead after = true ↔
      enabled = true ∧ ¬ ∃ x ∈ after.dropLast, Masks x := by
  induction after generalizing enabled ahead with
  | nil => simp [loggerFlag]
  | cons x after ih =>
      have hx := hafter x List.mem_cons_self
      have ih {enabled ahead : Bool} := @ih enabled ahead fun y hy => hafter y (List.mem_cons_of_mem x hy)
      rw [loggerFlag, if_neg hx]
      by_cases hnil : after = []
      · subst hnil
        simp [loggerFlag]
      · rw [List.dropLast_cons_of_ne_nil hnil]
        by_cases hvalue : x.2 = some "--dram-map"
        · rw [if_pos ⟨hvalue, hnil⟩, ih]
          constructor
          · rintro ⟨hfalse, _⟩
            cases hfalse
          · rintro ⟨_, hnone⟩
            exact absurd ⟨x, List.mem_cons_self, hx, hvalue⟩ hnone
        · rw [if_neg fun h => hvalue h.1, ih, List.exists_mem_cons_iff,
            or_iff_right fun h : Masks x => hvalue h.2]

theorem lastProfile_append (profile : DramAddressMapProfile) (l l' : List (String × Option String)) :
    lastProfile profile (l ++ l') = lastProfile (lastProfile profile l) l' := by
  induction l generalizing profile with
  | nil => rfl
  | cons x l ih => exact ih _

theorem lastProfile_after {profile : DramAddressMapProfile} {after : List (String × Option String)}
    (hafter : ∀ x ∈ after, x.1 ≠ "--dram-map") : lastProfile profile after = profile := by
  induction after with
  | nil => rfl
  | cons x after ih =>
      rw [lastProfile, if_neg (hafter x List.mem_cons_self)]
      exact ih fun y hy => hafter y (List.mem_cons_of_mem x hy)

/-- There is one last `--dram-map`. -/
theorem last_unique {before before' after after' : List (String × Option String)}
    {v v' : Option String}
    (h : before ++ ("--dram-map", v) :: after = before' ++ ("--dram-map", v') :: after')
    (hafter : ∀ x ∈ after, x.1 ≠ "--dram-map") (hafter' : ∀ x ∈ after', x.1 ≠ "--dram-map") :
    before = before' ∧ v = v' ∧ after = after' := by
  rcases List.append_eq_append_iff.mp h with ⟨c, rfl, hc⟩ | ⟨c, rfl, hc⟩
  · cases c with
    | nil =>
        cases hc
        exact ⟨(List.append_nil _).symm, rfl, rfl⟩
    | cons x c =>
        rw [List.cons_append, List.cons.injEq] at hc
        exact absurd rfl (hafter _ (hc.2 ▸ List.mem_append_right c List.mem_cons_self))
  · cases c with
    | nil =>
        cases hc
        exact ⟨List.append_nil _, rfl, rfl⟩
    | cons x c =>
        rw [List.cons_append, List.cons.injEq] at hc
        exact absurd rfl (hafter' _ (hc.2 ▸ List.mem_append_right c List.mem_cons_self))

/-- Some `--dram-map` is the last. -/
theorem exists_last {l : List (String × Option String)} (h : ∃ x ∈ l, x.1 = "--dram-map") :
    ∃ before v after, l = before ++ ("--dram-map", v) :: after ∧
      ∀ x ∈ after, x.1 ≠ "--dram-map" := by
  induction l with
  | nil =>
      obtain ⟨x, hx, _⟩ := h
      cases hx
  | cons x l ih =>
      by_cases hlater : ∃ y ∈ l, y.1 = "--dram-map"
      · obtain ⟨before, v, after, rfl, hafter⟩ := ih hlater
        exact ⟨x :: before, v, after, rfl, hafter⟩
      · have hx : x.1 = "--dram-map" := by
          rcases (List.exists_mem_cons_iff _ _ _).mp h with hx | hx
          · exact hx
          · exact absurd hx hlater
        refine ⟨[], x.2, l, ?_, fun y hy hdram => hlater ⟨y, hy, hdram⟩⟩
        rw [List.nil_append, ← hx]

/-- On the items the flag is the profile unless a value has been overlooked. -/
theorem loggerFlag_iff (l : List (String × Option String)) :
    (loggerFlag false false l = true ↔ lastProfile .none l = .sm8975Lp6) ↔ ¬ Overlooked l := by
  by_cases hsome : ∃ x ∈ l, x.1 = "--dram-map"
  · obtain ⟨before, v, after, rfl, hafter⟩ := exists_last hsome
    have hover : Overlooked (before ++ ("--dram-map", v) :: after) ↔ v ≠ some "none" ∧
        ((∃ x ∈ before.getLast?, Masks x) ∨ ∃ x ∈ after.dropLast, Masks x) := by
      constructor
      · rintro ⟨before', v', after', heq, hafter', hv, hmasks⟩
        obtain ⟨rfl, rfl, rfl⟩ := last_unique heq hafter hafter'
        exact ⟨hv, hmasks⟩
      · intro ⟨hv, hmasks⟩
        exact ⟨before, v, after, rfl, hafter, hv, hmasks⟩
    have hahead : aheadAfter false before = true ↔ ∃ x ∈ before.getLast?, Masks x := by
      unfold aheadAfter
      cases before.getLast? <;> simp
    rw [loggerFlag_append fun h => absurd h Bool.false_ne_true, loggerFlag_after hafter, lastProfile_append, lastProfile,
      if_pos rfl, lastProfile_after hafter, hover, ← hahead]
    by_cases hv : v = some "none"
    · simp [hv]
    · simp [hv]
  · have hnone : ∀ x ∈ l, x.1 ≠ "--dram-map" := fun x hx hdram => hsome ⟨x, hx, hdram⟩
    rw [loggerFlag_after hnone, lastProfile_after hnone]
    constructor
    · rintro _ ⟨before, v, after, rfl, _⟩
      exact hnone ("--dram-map", v) (by simp) rfl
    · intro _
      simp

/-- Without such a value nothing is overlooked. -/
theorem not_overlooked_of_forall {l : List (String × Option String)} (h : ∀ x ∈ l, ¬ Masks x) :
    ¬ Overlooked l := by
  rintro ⟨before, v, after, rfl, _, _, ⟨x, hx, hmasks⟩ | ⟨x, hx, hmasks⟩⟩
  · exact h x (List.mem_append_left _ (List.mem_of_getLast? hx)) hmasks
  · apply h x _ hmasks
    exact List.mem_append_right _ (List.mem_cons_of_mem _ (List.mem_of_mem_dropLast hx))

theorem checkOptions_profile {o o' : Options} (h : checkOptions o = .ok o') :
    o'.dramAddressMapProfile = o.dramAddressMapProfile := by
  have hdisk (o : Options) : (setDiskPages o).dramAddressMapProfile = o.dramAddressMapProfile := by
    unfold setDiskPages
    split <;> rfl
  unfold checkOptions checkChannels at h
  dsimp only at h
  repeat' split at h
  all_goals cases h
  all_goals exact hdisk _

/-- **The flag of the logger is the profile of `ParseArgs`** unless another option has the value
`--dram-map` at the wrong place. -/
theorem dram_map_agreement {args args' : List String} {enabled : Bool} {o : Options}
    (hprepare : prepareDramMapArgs args = some (enabled, args')) (hparse : parseArgs args' = .ok o) :
    (enabled = true ↔ o.dramAddressMapProfile = .sm8975Lp6) ↔ ¬ Overlooked (items args) := by
  obtain ⟨o₁, hloop, hcheck⟩ := parseArgs_ok hparse
  obtain ⟨hflag, hlast⟩ := (scanners_items args).1 _ _ _ _ _ hprepare hloop
  rw [checkOptions_profile hcheck, hflag, hlast]
  exact loggerFlag_iff (items args)

/-- The public profile, and a log file. -/
theorem dram_map_agreement_logfile :
    ∃ args' o, prepareDramMapArgs ["-l", "sat.log", "--dram-map", "sm8975-lp6"] = some (true, args') ∧
      parseArgs args' = .ok o ∧ o.dramAddressMapProfile = .sm8975Lp6 := by
  obtain ⟨o, ho⟩ : ∃ o, parseArgs ["-l", "sat.log", "--dram-map", "lpddr-v1"] = .ok o := ⟨_, rfl⟩
  have hitems : ¬ Overlooked (items ["-l", "sat.log", "--dram-map", "sm8975-lp6"]) := by
    apply not_overlooked_of_forall
    decide
  exact ⟨_, o, rfl, ho, ((dram_map_agreement rfl ho).mpr hitems).mp rfl⟩

/-- A log file of the name `--dram-map`: the flag is lost and the profile stays. -/
theorem dram_map_as_value :
    ∃ enabled args' o,
      prepareDramMapArgs ["--dram-map", "sm8975-lp6", "-l", "--dram-map", "-A"] =
        some (enabled, args') ∧
      parseArgs args' = .ok o ∧ ¬ (enabled = true ↔ o.dramAddressMapProfile = .sm8975Lp6) := by
  refine ⟨false, _, _, rfl, rfl, ?_⟩
  intro hiff
  exact absurd (hiff.mpr rfl) Bool.false_ne_true

end StressAppTest.Control
