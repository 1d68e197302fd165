import LyraUpgrade.Core.Solver

/-!
# Vendor grants

`valid_vendor_transitions` reads the rules from left to right and remembers what it saw of
each directed pair; `vendor_policy_blockers` asks the rules about each change.  Here both
are compared with what they are for.  A list of rules is valid when each rule is well
formed and the rules of one pair are all scoped or all pair-wide (`validVendorTransitions_iff`),
which no order of the rules changes.  What a valid list grants is what some rule of it says
(`Granted`); an invalid one grants nothing.
-/

namespace LyraUpgrade

/-! ## Valid rules -/

/-- A rule moves packages between valid vendors; its scope, if it has one, names at least
one package, valid names only, and each once. -/
structure VendorTransition.WellFormed (rule : VendorTransition) : Prop where
  origin : validVendor rule.from
  target : validVendor rule.«to»
  scope : ∀ names, rule.packages = some names →
    names ≠ [] ∧ (∀ name ∈ names, validPackage name) ∧ names.Nodup

/-- No directed pair has both a scoped and a pair-wide rule. -/
def Unambiguous (rules : List VendorTransition) : Prop :=
  ∀ rule ∈ rules, ∀ rule' ∈ rules, rule.from = rule'.from → rule.«to» = rule'.«to» →
    rule.packages.isSome = rule'.packages.isSome

section

variable {rule : VendorTransition} {rules rules' : List VendorTransition}
variable {pairs : List ((String × String) × Bool)}

theorem validScope_iff {packages : Option (List String)} : validScope packages ↔
    ∀ names, packages = some names →
      names ≠ [] ∧ (∀ name ∈ names, validPackage name) ∧ names.Nodup := by
  cases packages with
  | none => simp [validScope]
  | some names => simp [validScope, and_assoc, and_left_comm, and_comm]

theorem VendorTransition.wellFormed_iff : rule.WellFormed ↔
    validVendor rule.from ∧ validVendor rule.«to» ∧ validScope rule.packages :=
  ⟨fun h => ⟨h.origin, h.target, validScope_iff.mpr h.scope⟩,
    fun ⟨horigin, htarget, hscope⟩ => ⟨horigin, htarget, validScope_iff.mp hscope⟩⟩

/-- What the walk over the rules accepts when it has seen the rules of `pairs`. -/
theorem validRulesFrom_iff : validRulesFrom pairs rules ↔
    (∀ rule ∈ rules, rule.WellFormed) ∧ Unambiguous rules ∧
    ∀ rule ∈ rules, ∀ restricted, pairs.lookup (rule.from, rule.«to») = some restricted →
      restricted = rule.packages.isSome := by
  induction rules generalizing pairs with
  | nil => simp [validRulesFrom, Unambiguous]
  | cons rule rules ih =>
      have hlookup : (pairs.lookup (rule.from, rule.«to»)).all (· = rule.packages.isSome) ↔
          ∀ restricted, pairs.lookup (rule.from, rule.«to») = some restricted →
            restricted = rule.packages.isSome := by
        cases pairs.lookup (rule.from, rule.«to») <;> simp
      have hstep : validRulesFrom pairs (rule :: rules) ↔ rule.WellFormed ∧
          (∀ restricted, pairs.lookup (rule.from, rule.«to») = some restricted →
            restricted = rule.packages.isSome) ∧
          validRulesFrom (((rule.from, rule.«to»), rule.packages.isSome) :: pairs) rules := by
        rw [← hlookup, VendorTransition.wellFormed_iff]
        simp [validRulesFrom, and_assoc]
      -- a later rule of the pair is compared with this one, a rule of another with `pairs`
      have hcons : ∀ later : VendorTransition,
          (((rule.from, rule.«to»), rule.packages.isSome) :: pairs).lookup
              (later.from, later.«to») =
            if later.from = rule.from ∧ later.«to» = rule.«to» then some rule.packages.isSome
            else pairs.lookup (later.from, later.«to») := by
        intro later
        rw [List.lookup_cons]
        by_cases hpair : later.from = rule.from ∧ later.«to» = rule.«to»
        · simp [hpair]
        · have hne : ((later.from, later.«to») == (rule.from, rule.«to»)) = false := by
            simpa using hpair
          rw [hne, if_neg hpair]
      rw [hstep, ih]
      constructor
      · rintro ⟨hrule, hseen, hrules, hagree, hlater⟩
        have hsame : ∀ later ∈ rules, later.from = rule.from → later.«to» = rule.«to» →
            rule.packages.isSome = later.packages.isSome := by
          intro later hmem hfrom hto
          exact hlater later hmem _ (by rw [hcons, if_pos ⟨hfrom, hto⟩])
        refine ⟨List.forall_mem_cons.mpr ⟨hrule, hrules⟩, ?_, ?_⟩
        · intro a ha b hb hfrom hto
          rcases List.mem_cons.mp ha with rfl | ha' <;> rcases List.mem_cons.mp hb with rfl | hb'
          · rfl
          · exact hsame b hb' hfrom.symm hto.symm
          · exact (hsame a ha' hfrom hto).symm
          · exact hagree a ha' b hb' hfrom hto
        · refine List.forall_mem_cons.mpr ⟨hseen, fun later hmem restricted hrestricted => ?_⟩
          by_cases hpair : later.from = rule.from ∧ later.«to» = rule.«to»
          · rw [hpair.1, hpair.2] at hrestricted
            rw [hseen restricted hrestricted]
            exact hsame later hmem hpair.1 hpair.2
          · exact hlater later hmem restricted (by rw [hcons, if_neg hpair]; exact hrestricted)
      · rintro ⟨hall, hagree, hseen⟩
        obtain ⟨hrule, hrules⟩ := List.forall_mem_cons.mp hall
        obtain ⟨hfirst, hlater⟩ := List.forall_mem_cons.mp hseen
        refine ⟨hrule, hfirst, hrules, fun a ha b hb =>
          hagree a (List.mem_cons_of_mem rule ha) b (List.mem_cons_of_mem rule hb), ?_⟩
        intro later hmem restricted hrestricted
        rw [hcons] at hrestricted
        split_ifs at hrestricted with hpair
        · rw [← Option.some.inj hrestricted]
          exact hagree rule List.mem_cons_self later (List.mem_cons_of_mem rule hmem)
            hpair.1.symm hpair.2.symm
        · exact hlater later hmem restricted hrestricted

/-- **Valid rules**: each is well formed, and no pair is granted both ways. -/
theorem validVendorTransitions_iff : validVendorTransitions rules ↔
    (∀ rule ∈ rules, rule.WellFormed) ∧ Unambiguous rules := by
  rw [validVendorTransitions, validRulesFrom_iff]
  simp

/-- The order of the rules is of no concern. -/
theorem validVendorTransitions_perm (h : rules.Perm rules') :
    validVendorTransitions rules = validVendorTransitions rules' := by
  have hmem : ∀ rule, rule ∈ rules ↔ rule ∈ rules' := fun _ => h.mem_iff
  rw [Bool.eq_iff_iff, validVendorTransitions_iff, validVendorTransitions_iff]
  simp only [Unambiguous, hmem]

end

/-! ## What the rules grant -/

/-- A rule moves the package from one vendor to the other: one without a scope, or one
whose scope has the package. -/
def Granted (rules : List VendorTransition) (package origin target : String) : Prop :=
  ∃ rule ∈ rules, rule.from = origin ∧ rule.«to» = target ∧
    ∀ names, rule.packages = some names → package ∈ names

/-- The change passes: it is not blocked. -/
def Unblocked (policy : SolverPolicy) (change : PackageChange) : Prop :=
  vendorPolicyBlockers [change] policy = []

section

variable {policy : SolverPolicy} {change : PackageChange}

theorem unblocked_iff : Unblocked policy change ↔
    vendorPermitted policy (validVendorTransitions policy.allowedVendorTransitions) change := by
  rw [Unblocked, vendorPolicyBlockers_eq_nil, List.forall_mem_singleton]

theorem filter_validVendor_eq_some {vendor : Option String} {v : String} :
    vendor.filter validVendor = some v ↔ vendor = some v ∧ validVendor v := by
  rw [Option.filter_eq_some_iff]

/-- A new package needs a valid vendor, and has no vendor to leave. -/
theorem unblocked_install (h : change.action = .install) : Unblocked policy change ↔
    change.currentVendor = none ∧ ∃ v, change.proposedVendor = some v ∧ validVendor v := by
  rw [unblocked_iff]
  simp only [vendorPermitted, h, Bool.and_eq_true, Option.isNone_iff_eq_none,
    Option.isSome_iff_exists, filter_validVendor_eq_some]
  refine and_congr_left fun _ => ⟨fun h => h.2, fun h => ⟨by rw [h]; rfl, h⟩⟩

/-- A removal needs a valid vendor, and proposes none. -/
theorem unblocked_remove (h : change.action = .remove) : Unblocked policy change ↔
    change.proposedVendor = none ∧ ∃ v, change.currentVendor = some v ∧ validVendor v := by
  rw [unblocked_iff]
  simp only [vendorPermitted, h, Bool.and_eq_true, Option.isNone_iff_eq_none,
    Option.isSome_iff_exists, filter_validVendor_eq_some]
  exact and_comm

/-- Any other change needs two valid vendors; if they differ, valid rules must grant it. -/
theorem unblocked_update (hinstall : change.action ≠ .install)
    (hremove : change.action ≠ .remove) : Unblocked policy change ↔
    ∃ origin target, change.currentVendor = some origin ∧ change.proposedVendor = some target ∧
      validVendor origin ∧ validVendor target ∧ (origin = target ∨
        validVendorTransitions policy.allowedVendorTransitions ∧
          Granted policy.allowedVendorTransitions change.name origin target) := by
  have hpermitted : vendorPermitted policy
      (validVendorTransitions policy.allowedVendorTransitions) change ↔
      ∃ origin target, change.currentVendor.filter validVendor = some origin ∧
        change.proposedVendor.filter validVendor = some target ∧ (origin = target ∨
          validVendorTransitions policy.allowedVendorTransitions ∧
            Granted policy.allowedVendorTransitions change.name origin target) := by
    have hscope : ∀ rule : VendorTransition, rule.packages.all (·.contains change.name) ↔
        ∀ names, rule.packages = some names → change.name ∈ names := by
      intro rule
      cases rule.packages <;> simp
    cases horigin : change.currentVendor.filter validVendor with
    | none => cases haction : change.action <;> simp_all [vendorPermitted]
    | some origin =>
        cases htarget : change.proposedVendor.filter validVendor with
        | none => cases haction : change.action <;> simp_all [vendorPermitted]
        | some target =>
            cases haction : change.action with
            | install => exact absurd haction hinstall
            | remove => exact absurd haction hremove
            | upgrade | downgrade | reinstall =>
                simp [vendorPermitted, haction, horigin, htarget, Granted, and_assoc, ← hscope]
  rw [unblocked_iff, hpermitted]
  simp only [filter_validVendor_eq_some]
  refine exists_congr fun origin => exists_congr fun target => ?_
  tauto

end

/-- The blockers are those of the changes one by one. -/
theorem vendorPolicyBlockers_eq_flatMap (changes : List PackageChange) (policy : SolverPolicy) :
    vendorPolicyBlockers changes policy =
      changes.flatMap fun change => vendorPolicyBlockers [change] policy := by
  simp only [vendorPolicyBlockers, List.filterMap_eq_flatMap_toList, List.flatMap_singleton]

/-- The blockers depend on the rules through their validity and through what they grant. -/
theorem vendorPolicyBlockers_perm {policy policy' : SolverPolicy}
    (h : policy.allowedVendorTransitions.Perm policy'.allowedVendorTransitions)
    (changes : List PackageChange) :
    vendorPolicyBlockers changes policy = vendorPolicyBlockers changes policy' := by
  have hany : ∀ p : VendorTransition → Bool, policy.allowedVendorTransitions.any p =
      policy'.allowedVendorTransitions.any p := fun p => by
    rw [Bool.eq_iff_iff, List.any_eq_true, List.any_eq_true]
    exact exists_congr fun rule => and_congr_left fun _ => h.mem_iff
  have hpermitted : vendorPermitted policy = vendorPermitted policy' := by
    funext valid change
    simp only [vendorPermitted, hany]
  simp only [vendorPolicyBlockers, validVendorTransitions_perm h, hpermitted]

/-- **Vendor grants never leak.**  A list of rules is valid exactly when each rule is well
formed and no directed pair is granted both to all packages and to some, and neither this nor
the blockers depend on the order of the rules.  The blockers name the changes that do not
pass, in their order.  Whatever the rules, an installation or a removal passes exactly with a
valid vendor on the required side and none on the other.  An update between two vendors
passes under invalid rules only if they are one valid vendor, and under valid rules also if
a rule for the pair has no scope or has the package in it. -/
theorem vendor_grants_exact (changes : List PackageChange) (policy : SolverPolicy) :
    (validVendorTransitions policy.allowedVendorTransitions ↔
      (∀ rule ∈ policy.allowedVendorTransitions, rule.WellFormed) ∧
        Unambiguous policy.allowedVendorTransitions) ∧
    (∀ policy' : SolverPolicy,
      policy.allowedVendorTransitions.Perm policy'.allowedVendorTransitions →
        validVendorTransitions policy'.allowedVendorTransitions =
            validVendorTransitions policy.allowedVendorTransitions ∧
          vendorPolicyBlockers changes policy' = vendorPolicyBlockers changes policy) ∧
    (vendorPolicyBlockers changes policy =
      changes.flatMap fun change => vendorPolicyBlockers [change] policy) ∧
    (∀ change, ¬ Unblocked policy change →
      vendorPolicyBlockers [change] policy = [.unauthorizedVendorChange change.name]) ∧
    (∀ change : PackageChange, change.action = .install → (Unblocked policy change ↔
      change.currentVendor = none ∧ ∃ v, change.proposedVendor = some v ∧ validVendor v)) ∧
    (∀ change : PackageChange, change.action = .remove → (Unblocked policy change ↔
      change.proposedVendor = none ∧ ∃ v, change.currentVendor = some v ∧ validVendor v)) ∧
    (∀ change : PackageChange, change.action ≠ .install → change.action ≠ .remove →
      (validVendorTransitions policy.allowedVendorTransitions = false →
        (Unblocked policy change ↔
          ∃ v, change.currentVendor = some v ∧ change.proposedVendor = some v ∧ validVendor v)) ∧
      (validVendorTransitions policy.allowedVendorTransitions →
        (Unblocked policy change ↔
          (∃ v, change.currentVendor = some v ∧ change.proposedVendor = some v ∧
            validVendor v) ∨
          (∃ origin target, change.currentVendor = some origin ∧
            change.proposedVendor = some target ∧ origin ≠ target ∧
            Granted policy.allowedVendorTransitions change.name origin target)))) := by
  refine ⟨validVendorTransitions_iff, fun policy' hperm =>
    ⟨(validVendorTransitions_perm hperm).symm, (vendorPolicyBlockers_perm hperm changes).symm⟩,
    vendorPolicyBlockers_eq_flatMap changes policy, ?_, fun change => unblocked_install,
    fun change => unblocked_remove, fun change hinstall hremove => ⟨fun hinvalid => ?_,
      fun hvalid => ?_⟩⟩
  · intro change hblocked
    have hnot : ¬ vendorPermitted policy
        (validVendorTransitions policy.allowedVendorTransitions) change :=
      fun h => hblocked (unblocked_iff.mpr h)
    simp [vendorPolicyBlockers, hnot]
  · rw [unblocked_update hinstall hremove]
    constructor
    · rintro ⟨v, target, hcurrent, hproposed, hv, -, rfl | ⟨hvalid, -⟩⟩
      · exact ⟨v, hcurrent, hproposed, hv⟩
      · rw [hinvalid] at hvalid
        cases hvalid
    · rintro ⟨v, hcurrent, hproposed, hv⟩
      exact ⟨v, v, hcurrent, hproposed, hv, hv, .inl rfl⟩
  · rw [unblocked_update hinstall hremove]
    constructor
    · rintro ⟨origin, target, hcurrent, hproposed, horigin, -, hsame | ⟨-, hgranted⟩⟩
      · exact .inl ⟨origin, hcurrent, hsame ▸ hproposed, horigin⟩
      · by_cases hsame : origin = target
        · exact .inl ⟨origin, hcurrent, hsame ▸ hproposed, horigin⟩
        · exact .inr ⟨origin, target, hcurrent, hproposed, hsame, hgranted⟩
    · rintro (⟨v, hcurrent, hproposed, hv⟩ | ⟨origin, target, hcurrent, hproposed, -, hgranted⟩)
      · exact ⟨v, v, hcurrent, hproposed, hv, hv, .inl rfl⟩
      · -- the vendors of a valid rule are valid
        obtain ⟨rule, hrule, rfl, rfl, -⟩ := id hgranted
        have hwell := (validVendorTransitions_iff.mp hvalid).1 rule hrule
        exact ⟨rule.from, rule.«to», hcurrent, hproposed, hwell.origin, hwell.target,
          .inr ⟨hvalid, hgranted⟩⟩

end LyraUpgrade
