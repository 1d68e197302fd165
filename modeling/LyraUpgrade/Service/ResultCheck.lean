import LyraUpgrade.Service.Convergence

/-!
# What the inventory check accepts

`verify_result` walks over the changes of a plan with two sets, the packages that must be
installed afterwards and those that may be.  For changes that do not get in each other's way
(`Separate`) the sets are what one expects: the confirmed packages without the replaced ones,
and the proposed ones; and beside them, what a change replaces without removing it may stay,
as older kernels do.  The walk is described by one step (`expectedInventory_step`) and an
induction on the changes.
-/

namespace LyraUpgrade

/-! ## The sets of a plan -/

namespace UpgradePlan

/-- What the changes replace or remove. -/
def previousPackages (self : UpgradePlan) : Set InstalledPackage :=
  {x | ∃ change ∈ self.packageChanges, change.previous = some x}

/-- What they install. -/
def proposedPackages (self : UpgradePlan) : Set InstalledPackage :=
  {x | ∃ change ∈ self.packageChanges, change.proposed = some x}

/-- What is expected afterwards. -/
def expectedPackages (self : UpgradePlan) : Set InstalledPackage :=
  ({x | x ∈ self.installedPackages} \ self.previousPackages) ∪ self.proposedPackages

/-- What may stay beside it. -/
def retainedPackages (self : UpgradePlan) : Set InstalledPackage :=
  {x | ∃ change ∈ self.packageChanges, change.action ≠ .remove ∧ change.previous = some x}

end UpgradePlan

/-- Two changes replace different packages, and neither replaces what the other installs. -/
def Apart (a b : PackageChange) : Prop :=
  (∀ x, a.previous = some x → b.previous ≠ some x) ∧
  (∀ x, a.previous = some x → b.proposed ≠ some x) ∧
  (∀ x, b.previous = some x → a.proposed ≠ some x)

/-- Changes that name the vendors of their versions and do not get in each other's way. -/
structure Separate (changes : List PackageChange) : Prop where
  currentVendor : ∀ change ∈ changes, change.currentVersion.isSome → change.currentVendor.isSome
  proposedVendor : ∀ change ∈ changes,
    change.proposedVersion.isSome → change.proposedVendor.isSome
  apart : changes.Pairwise Apart

section

variable {change : PackageChange} {changes changes' : List PackageChange}
variable {required allowed required' allowed' : List InstalledPackage} {x : InstalledPackage}

theorem Apart.symm {a b : PackageChange} (h : Apart a b) : Apart b a :=
  ⟨fun x hb ha => h.1 x ha hb, h.2.2, h.2.1⟩

theorem Separate.tail (h : Separate (change :: changes)) : Separate changes where
  currentVendor c hc := h.currentVendor c (List.mem_cons_of_mem _ hc)
  proposedVendor c hc := h.proposedVendor c (List.mem_cons_of_mem _ hc)
  apart := h.apart.tail

/-- The order of the changes does not matter. -/
theorem Separate.perm (h : Separate changes) (hperm : changes.Perm changes') :
    Separate changes' where
  currentVendor c hc := h.currentVendor c (hperm.mem_iff.mpr hc)
  proposedVendor c hc := h.proposedVendor c (hperm.mem_iff.mpr hc)
  apart := (hperm.pairwise_iff fun hab => Apart.symm hab).mp h.apart

/-! ## The walk over the changes -/

/-- One turn of the loop: what the change replaces must be required and is so no longer; it
stays allowed unless it is removed; what is proposed is required and allowed. -/
theorem expectedInventory_step
    (hcurrent : change.currentVersion.isSome → change.currentVendor.isSome)
    (hproposed : change.proposedVersion.isSome → change.proposedVendor.isSome) :
    expectedInventory (change :: changes) (required, allowed) =
      if ∀ x, change.previous = some x → x ∈ required then
        expectedInventory changes
          (change.proposed.toList ++ required.filter (fun x => change.previous ≠ some x),
            change.proposed.toList ++
              allowed.filter (fun x => ¬ (change.action = .remove ∧ change.previous = some x)))
      else none := by
  have hadded : (change.proposedVersion = none ∧ change.proposed = none) ∨
      ∃ version vendor, change.proposedVersion = some version ∧ change.proposedVendor = some vendor ∧
        change.proposed = some ⟨change.name, version, change.architecture, vendor⟩ := by
    cases hversion : change.proposedVersion with
    | none => exact .inl ⟨rfl, by simp [PackageChange.proposed, hversion]⟩
    | some version =>
        obtain ⟨vendor, hvendor⟩ := Option.isSome_iff_exists.mp (hproposed (by rw [hversion]; rfl))
        exact .inr ⟨version, vendor, rfl, hvendor, by simp [PackageChange.proposed, hversion, hvendor]⟩
  rw [expectedInventory]
  cases hversion : change.currentVersion with
  | none =>
      have hnone : change.previous = none := by simp [PackageChange.previous, hversion]
      simp only [hnone, reduceCtorEq, false_implies, implies_true, if_true, and_false, not_false_eq_true,
        decide_true, List.filter_true, ne_eq, Option.bind_some]
      rcases hadded with ⟨hnew, hplace⟩ | ⟨new, maker, hnew, hmaker, hplace⟩
      · simp [hnew, hplace]
      · simp [hnew, hmaker, hplace]
  | some version =>
      obtain ⟨vendor, hvendor⟩ := Option.isSome_iff_exists.mp (hcurrent (by rw [hversion]; rfl))
      have hprevious : change.previous =
          some ⟨change.name, version, change.architecture, vendor⟩ := by
        simp [PackageChange.previous, hversion, hvendor]
      have hguard : (∀ x, change.previous = some x → x ∈ required) ↔
          (⟨change.name, version, change.architecture, vendor⟩ : InstalledPackage) ∈ required := by
        rw [hprevious]
        exact ⟨fun h => h _ rfl, fun h x hx => by cases hx; exact h⟩
      have hne : ∀ x, (change.previous ≠ some x) =
          (x ≠ ⟨change.name, version, change.architecture, vendor⟩) := fun x => by
        rw [hprevious, ne_eq, Option.some.injEq]
        exact propext ne_comm
      by_cases hmem : (⟨change.name, version, change.architecture, vendor⟩ : InstalledPackage) ∈
          required
      · rw [if_pos (hguard.mpr hmem)]
        simp only [hvendor, Option.bind_some, if_pos hmem, hne]
        have hallowed : (if change.action = .remove then
            allowed.filter (· ≠ ⟨change.name, version, change.architecture, vendor⟩)
            else allowed) =
            allowed.filter fun x => ¬ (change.action = .remove ∧ change.previous = some x) := by
          by_cases haction : change.action = .remove
          · simp [haction, hprevious, eq_comm]
          · simp [haction]
        rw [hallowed]
        rcases hadded with ⟨hnew, hplace⟩ | ⟨new, maker, hnew, hmaker, hplace⟩
        · simp [hnew, hplace]
        · simp [hnew, hmaker, hplace]
      · rw [if_neg (mt hguard.mp hmem)]
        simp only [hvendor, Option.bind_some, if_neg hmem, Option.bind_none]

/-- **The walk in closed form.**  It succeeds exactly when everything the changes replace
was required; then what is required is what no change replaces and what some change
proposes, and what is allowed is what no change removes and what some change proposes. -/
theorem expectedInventory_closed (h : Separate changes) :
    ((∀ change ∈ changes, ∀ x, change.previous = some x → x ∈ required) →
      ∃ required' allowed', expectedInventory changes (required, allowed) =
          some (required', allowed') ∧
        (∀ x, x ∈ required' ↔ (x ∈ required ∧ ∀ change ∈ changes, change.previous ≠ some x) ∨
          ∃ change ∈ changes, change.proposed = some x) ∧
        (∀ x, x ∈ allowed' ↔ (x ∈ allowed ∧
            ∀ change ∈ changes, change.action = .remove → change.previous ≠ some x) ∨
          ∃ change ∈ changes, change.proposed = some x)) ∧
    ((∃ change ∈ changes, ∃ x, change.previous = some x ∧ x ∉ required) →
      expectedInventory changes (required, allowed) = none) := by
  induction changes generalizing required allowed with
  | nil =>
      refine ⟨fun _ => ⟨required, allowed, rfl, by simp, by simp⟩, ?_⟩
      rintro ⟨_, hmem, -⟩
      cases hmem
  | cons change changes ih =>
      have hstep := @expectedInventory_step change changes required allowed
        (h.currentVendor change List.mem_cons_self) (h.proposedVendor change List.mem_cons_self)
      have hapart := (List.pairwise_cons.mp h.apart).1
      -- what a later change replaces is required after this turn if it was before
      have hlater : ∀ c ∈ changes, ∀ x, c.previous = some x →
          (x ∈ change.proposed.toList ++ required.filter (fun x => change.previous ≠ some x) ↔
            x ∈ required) := by
        intro c hc x hx
        have hold : change.previous ≠ some x := fun hsame => (hapart c hc).1 x hsame hx
        have hnew : change.proposed ≠ some x := (hapart c hc).2.2 x hx
        simp [hold, hnew]
      rw [hstep]
      constructor
      · intro hall
        obtain ⟨hhead, htail⟩ := List.forall_mem_cons.mp hall
        rw [if_pos hhead]
        obtain ⟨required', allowed', hrest, hrequired, hallowed⟩ := (ih h.tail).1
          (fun c hc x hx => (hlater c hc x hx).mpr (htail c hc x hx))
        -- what this change proposes, no later one replaces
        have hkept : ∀ x, change.proposed = some x → ∀ c ∈ changes, c.previous ≠ some x :=
          fun x hx c hc hsame => (hapart c hc).2.2 x hsame hx
        refine ⟨required', allowed', hrest, fun x => ?_, fun x => ?_⟩
        · rw [hrequired x]
          simp only [List.mem_append, Option.mem_toList, List.mem_filter, decide_eq_true_eq,
            List.forall_mem_cons, List.exists_mem_cons_iff]
          have := hkept x
          tauto
        · rw [hallowed x]
          simp only [List.mem_append, Option.mem_toList, List.mem_filter, decide_eq_true_eq,
            List.forall_mem_cons, List.exists_mem_cons_iff]
          have hkept' : change.proposed = some x →
              ∀ c ∈ changes, c.action = .remove → c.previous ≠ some x :=
            fun hx c hc _ => hkept x hx c hc
          tauto
      · rintro ⟨c, hc, x, hx, hnot⟩
        split_ifs with hhead
        · rcases List.mem_cons.mp hc with rfl | hc
          · exact absurd (hhead x hx) hnot
          · exact (ih h.tail).2 ⟨c, hc, x, hx, mt (hlater c hc x hx).mp hnot⟩
        · rfl

end

/-! ## The check -/

section

variable {plan plan' : UpgradePlan} {report report' : InventoryReport}

/-- Whatever is replaced was there, so what may stay is what no change removes. -/
theorem expected_union_retained (h : Separate plan.packageChanges)
    (hprevious : plan.previousPackages ⊆ {x | x ∈ plan.installedPackages}) :
    plan.expectedPackages ∪ plan.retainedPackages =
      {x | (x ∈ plan.installedPackages ∧ ∀ change ∈ plan.packageChanges,
          change.action = .remove → change.previous ≠ some x) ∨
        ∃ change ∈ plan.packageChanges, change.proposed = some x} := by
  -- two changes that replace the same package are one
  have hsame : ∀ a ∈ plan.packageChanges, ∀ b ∈ plan.packageChanges, ∀ x,
      a.previous = some x → b.previous = some x → a = b := by
    intro a ha b hb x hax hbx
    have hsymm : Std.Symm Apart := ⟨fun _ _ => Apart.symm⟩
    by_contra hne
    exact (h.apart.forall ha hb hne).1 x hax hbx
  ext x
  constructor
  · rintro ((⟨hmem, hnot⟩ | hproposed) | ⟨change, hchange, haction, hx⟩)
    · exact .inl ⟨hmem, fun c hc _ hcx => hnot ⟨c, hc, hcx⟩⟩
    · exact .inr hproposed
    · refine .inl ⟨hprevious ⟨change, hchange, hx⟩, fun c hc hremove hcx => ?_⟩
      rw [hsame change hchange c hc x hx hcx] at haction
      exact haction hremove
  · rintro (⟨hmem, hkept⟩ | hproposed)
    · by_cases hx : x ∈ plan.previousPackages
      · obtain ⟨change, hchange, hx⟩ := hx
        exact .inr ⟨change, hchange, fun hremove => hkept change hchange hremove hx, hx⟩
      · exact .inl (.inl ⟨hmem, hx⟩)
    · exact .inl (.inr hproposed)

/-- The two sets compared with the report, for a plan that was checked up to that point. -/
theorem verifyResult_iff (hschema : plan.schemaVersion = 3) (hinstalled : plan.installedPackages ≠ [])
    (h : Separate plan.packageChanges) : verifyResult plan report ↔
      plan.previousPackages ⊆ {x | x ∈ plan.installedPackages} ∧
      plan.expectedPackages ⊆ {x | x ∈ report.installedPackages} ∧
      {x | x ∈ report.installedPackages} ⊆ plan.expectedPackages ∪ plan.retainedPackages ∧
      (plan.operation = .packageMigration →
        {x | x ∈ report.installedPackages} = plan.expectedPackages) := by
  obtain ⟨hsucceeds, hfails⟩ := @expectedInventory_closed plan.packageChanges
    plan.installedPackages plan.installedPackages h
  have hnonempty : plan.installedPackages.isEmpty = false := by
    rw [← Bool.not_eq_true, List.isEmpty_iff]
    exact hinstalled
  by_cases hprevious : plan.previousPackages ⊆ {x | x ∈ plan.installedPackages}
  · obtain ⟨required, allowed, hwalk, hrequired, hallowed⟩ :=
      hsucceeds fun change hchange x hx => hprevious ⟨change, hchange, hx⟩
    have hexpected : plan.expectedPackages = {x | x ∈ required} := by
      ext x
      rw [Set.mem_ofPred_eq, hrequired x]
      simp [UpgradePlan.expectedPackages, UpgradePlan.previousPackages,
        UpgradePlan.proposedPackages]
    have hretained : plan.expectedPackages ∪ plan.retainedPackages = {x | x ∈ allowed} := by
      rw [expected_union_retained h hprevious]
      ext x
      exact (hallowed x).symm
    rw [hretained, hexpected]
    simp [verifyResult, hschema, hnonempty, hwalk, hprevious, Set.subset_def, Set.ext_iff]
    grind
  · obtain ⟨x, ⟨change, hchange, hx⟩, hnot⟩ := Set.not_subset.mp hprevious
    have hwalk := hfails ⟨change, hchange, x, hx, hnot⟩
    refine iff_of_false ?_ fun hall => hprevious hall.1
    simp [verifyResult, hwalk]

/-- **The inventory check is exact.**  For a plan of the current schema with confirmed
packages, whose changes do not get in each other's way, a report is accepted exactly when
everything the changes replace was installed, everything that is expected is there, and
nothing else is but what a change replaces without removing it; after a package migration
not even that.  Neither the order of the changes nor that of the packages matters. -/
theorem verify_result_exact (hschema : plan.schemaVersion = 3)
    (hinstalled : plan.installedPackages ≠ []) (h : Separate plan.packageChanges)
    (report : InventoryReport) :
    (verifyResult plan report ↔
      plan.previousPackages ⊆ {x | x ∈ plan.installedPackages} ∧
      plan.expectedPackages ⊆ {x | x ∈ report.installedPackages} ∧
      {x | x ∈ report.installedPackages} ⊆ plan.expectedPackages ∪ plan.retainedPackages ∧
      (plan.operation = .packageMigration →
        {x | x ∈ report.installedPackages} = plan.expectedPackages)) ∧
    (∀ changes installed reported, changes.Perm plan.packageChanges →
      installed.Perm plan.installedPackages → reported.Perm report.installedPackages →
      verifyResult { plan with packageChanges := changes, installedPackages := installed }
          { report with installedPackages := reported } = verifyResult plan report) := by
  refine ⟨verifyResult_iff hschema hinstalled h, ?_⟩
  intro changes installed reported hchanges hpackages hreported
  let plan' := { plan with packageChanges := changes, installedPackages := installed }
  have hinstalled' : plan'.installedPackages ≠ [] := by
    intro hnil
    have hnil' : [].Perm plan.installedPackages := hnil ▸ hpackages
    exact hinstalled hnil'.symm.eq_nil
  have hpackageSet : {x | x ∈ plan'.installedPackages} = {x | x ∈ plan.installedPackages} := by
    ext x
    exact hpackages.mem_iff
  have hreportedSet : {x | x ∈ reported} = {x | x ∈ report.installedPackages} := by
    ext x
    exact hreported.mem_iff
  have hprevious : plan'.previousPackages = plan.previousPackages := by
    ext x
    exact exists_congr fun c => and_congr_left fun _ => hchanges.mem_iff
  have hproposed : plan'.proposedPackages = plan.proposedPackages := by
    ext x
    exact exists_congr fun c => and_congr_left fun _ => hchanges.mem_iff
  have hretained : plan'.retainedPackages = plan.retainedPackages := by
    ext x
    exact exists_congr fun c => and_congr_left fun _ => hchanges.mem_iff
  have hexpected : plan'.expectedPackages = plan.expectedPackages := by
    rw [UpgradePlan.expectedPackages, UpgradePlan.expectedPackages, hpackageSet, hprevious,
      hproposed]
  show verifyResult plan' { report with installedPackages := reported } = verifyResult plan report
  have hiff := @verifyResult_iff plan' { report with installedPackages := reported } hschema
    hinstalled' (h.perm hchanges.symm)
  rw [Bool.eq_iff_iff, hiff, verifyResult_iff hschema hinstalled h, hpackageSet, hreportedSet,
    hprevious, hexpected, hretained]

end

theorem verify_result_exact_sample :
    {x | x ∈ Sample.afterMaintenance} = Sample.maintenancePlan.expectedPackages := by
  have hseparate : Separate Sample.maintenancePlan.packageChanges :=
    ⟨by decide, by decide, List.pairwise_singleton _ _⟩
  exact ((verify_result_exact rfl (by decide) hseparate
    ⟨1, Sample.afterMaintenance, []⟩).1.mp (by decide)).2.2.2 rfl

end LyraUpgrade
