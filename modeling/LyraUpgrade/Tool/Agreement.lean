import LyraUpgrade.Encoding.Result
import LyraUpgrade.Tool.Versions

/-!
# The release tool and the updater

Two validators for one document.  What the tool has established of a document it accepts is
read back by the updater as it is (`ofDocument_of_validate`), apart from a version of the
schema that is not written as an integer.  The route then holds under every check but four:
the numbers of the versions are bounded, the build of the target is spelled in ASCII, and
the addresses contain no white space (`route_iff`).
-/

namespace LyraUpgrade.Tool

open Encoding

/-! ## Reading back -/

section

variable {value : Document} {entries : Entries} {message s : String}
variable {expected known : List String}

theorem requireString_ok {condition : String → Bool}
    (h : requireString value condition message = .ok s) : value = .str s ∧ condition s := by
  cases value <;> simp only [requireString, reduceCtorEq] at h
  split_ifs at h with hcondition
  cases h
  exact ⟨rfl, hcondition⟩

theorem requireBoolean_ok {b : Bool} (h : requireBoolean value message = .ok b) :
    value = .bool b := by
  cases value <;> simp only [requireBoolean, reduceCtorEq] at h
  cases h
  rfl

theorem requireInteger_ok {condition : ℤ → Bool} {n : ℤ}
    (h : requireInteger value condition message = .ok n) : value = .int n ∧ condition n := by
  cases value <;> simp only [requireInteger, reduceCtorEq] at h
  split_ifs at h with hcondition
  cases h
  exact ⟨rfl, hcondition⟩

theorem requireList_ok {xs : List Document} (h : requireList value message = .ok xs) :
    value = .list xs := by
  cases value <;> simp only [requireList, reduceCtorEq] at h
  cases h
  rfl

theorem require_ok {condition : Bool} {u : Unit} (h : require condition message = .ok u) :
    condition := by
  unfold require at h
  split_ifs at h with hcondition
  exact hcondition

theorem dict_of_exactFields (h : exactFields value expected message = .ok entries) :
    value = .dict entries := by
  cases value <;> simp only [exactFields, reduceCtorEq] at h
  split_ifs at h
  cases h
  rfl

/-- A dictionary with the expected keys is a record. -/
theorem record_of_exactFields (hexpected : expected.Nodup) (hknown : expected ⊆ known)
    (h : exactFields value expected message = .ok entries) :
    value.record known = some entries ∧ (entries.map (·.1)).Perm expected := by
  cases value <;> simp only [exactFields, reduceCtorEq] at h
  split_ifs at h with hperm
  cases h
  rw [List.isPerm_iff] at hperm
  refine ⟨Document.record_dict (hperm.nodup_iff.mpr hexpected) fun key hkey => ?_, hperm⟩
  exact hknown (hperm.mem_iff.mp hkey)

/-- A member is read as a required field, unless `null` is read as well. -/
theorem required_eq {α : Type} {read : Document → Option α} {key : String}
    (hnull : read .null = none) : required entries key read = read (member entries key) := by
  unfold required member
  cases entries.lookup key with
  | none => exact hnull.symm
  | some value => rfl

theorem required_string {key : String} (h : member entries key = .str s) :
    required entries key Document.string = some s := by
  rw [required_eq rfl, h]
  rfl

/-! ## The parts of a manifest -/

theorem identity_ok {label : String} {identity : ReleaseIdentity}
    (h : validateIdentity value label = .ok identity) :
    ReleaseIdentity.ofDocument value = some identity ∧ matchesVersion identity.version ∧
      identity.edition = "desktop" ∧ identity.architecture = "x86_64" ∧
      identity.buildId.isEmpty = false := by
  obtain ⟨entries, hfields, h⟩ := bind_eq_ok.mp h
  obtain ⟨version, hversion, h⟩ := bind_eq_ok.mp h
  obtain ⟨edition, hedition, h⟩ := bind_eq_ok.mp h
  obtain ⟨architecture, harchitecture, h⟩ := bind_eq_ok.mp h
  obtain ⟨buildId, hbuildId, h⟩ := bind_eq_ok.mp h
  cases h
  obtain ⟨hrecord, -⟩ := record_of_exactFields (by decide) (List.Subset.refl _) hfields
  obtain ⟨hversion, hmatches⟩ := requireString_ok hversion
  obtain ⟨hedition, hdesktop⟩ := requireString_ok hedition
  obtain ⟨harchitecture, hx86⟩ := requireString_ok harchitecture
  obtain ⟨hbuildId, hstrip⟩ := requireString_ok hbuildId
  refine ⟨?_, hmatches, by simpa using hdesktop, by simpa using hx86, ?_⟩
  · simp [ReleaseIdentity.ofDocument, hrecord, required_string hversion,
      required_string hedition, required_string harchitecture, required_string hbuildId]
  · cases hempty : buildId.isEmpty with
    | false => rfl
    | true =>
        rw [String.isEmpty_iff] at hempty
        subst hempty
        exact absurd hstrip (by decide)

theorem status_ok {status : ManifestStatus} (h : validateStatus value = .ok status) :
    ManifestStatus.ofDocument value = some status := by
  unfold validateStatus at h
  split at h <;> cases h <;> rfl

theorem matchesPackage_eq (name : String) : matchesPackage name = validPackage name := by
  unfold matchesPackage validPackage
  congr 2
  funext c
  cases c.isAlphanum <;> cases decide (c = '+') <;> cases decide (c = '.') <;>
    cases decide (c = '_') <;> cases decide (c = '-') <;> rfl

theorem packageNames_ok {values : List Document} {names : List String}
    (h : packageNames values message = .ok names) :
    values.mapM Document.string = some names ∧ ∀ name ∈ names, validPackage name := by
  refine ⟨mapM_of_mapM_ok (fun x y hxy => ?_) h, fun name hname => ?_⟩
  · rw [(requireString_ok hxy).1]
    rfl
  · obtain ⟨x, -, hx⟩ := (mapM_ok_mem h).2 name hname
    rw [← matchesPackage_eq]
    exact (requireString_ok hx).2

theorem httpsUrl_ok {acceptsUrl : String → Bool} {label url : String}
    (h : httpsUrl acceptsUrl value label = .ok url) : value = .str url ∧ acceptsUrl url := by
  obtain ⟨text, htext, h⟩ := bind_eq_ok.mp h
  obtain ⟨u, haccepts, h⟩ := bind_eq_ok.mp h
  cases h
  exact ⟨(requireString_ok htext).1, require_ok haccepts⟩

theorem matchesAlias_eq (name : String) : matchesAlias name = validAlias name := by
  unfold matchesAlias validAlias
  congr 2
  funext c
  cases c.isAlphanum <;> cases decide (c = '.') <;> cases decide (c = '_') <;>
    cases decide (c = ':') <;> cases decide (c = '-') <;> rfl

theorem validFingerprint_of_matches (h : matchesFingerprint s) : validFingerprint s := by
  simp only [matchesFingerprint, Bool.and_eq_true, decide_eq_true_eq, List.all_eq_true] at h
  have hbytes := utf8ByteSize_of_ascii fun c hc => isHexUpper_ascii (h.2 c hc)
  simp only [validFingerprint, Bool.and_eq_true, decide_eq_true_eq, List.all_eq_true]
  exact ⟨hbytes.trans h.1, h.2⟩

/-- What the updater refuses an address for that the tool accepts. -/
def spaced (repository : RepositoryTransition) : Bool :=
  repository.baseUrl.toList.any isWhitespace || repository.signingKeyUrl.toList.any isWhitespace

theorem repository_ok {acceptsUrl : String → Bool} {aliases : List String} {index : ℕ}
    {repository : RepositoryTransition}
    (h : validateRepository acceptsUrl aliases index value = .ok repository) :
    RepositoryTransition.ofDocument value = some repository ∧
    ∀ rest, checkRepositories acceptsUrl aliases (repository :: rest) =
      if spaced repository then .error .invalidRepository
      else checkRepositories acceptsUrl (repository.alias :: aliases) rest := by
  obtain ⟨entries, hfields, h⟩ := bind_eq_ok.mp h
  obtain ⟨name, hname, h⟩ := bind_eq_ok.mp h
  obtain ⟨baseUrl, hbaseUrl, h⟩ := bind_eq_ok.mp h
  obtain ⟨signingKeyUrl, hsigningKeyUrl, h⟩ := bind_eq_ok.mp h
  obtain ⟨fingerprint, hfingerprint, h⟩ := bind_eq_ok.mp h
  obtain ⟨priority, hpriority, h⟩ := bind_eq_ok.mp h
  cases h
  obtain ⟨hrecord, -⟩ := record_of_exactFields (by decide) (List.Subset.refl _) hfields
  obtain ⟨hname, hvalid⟩ := requireString_ok hname
  obtain ⟨hbaseUrl, hbase⟩ := httpsUrl_ok hbaseUrl
  obtain ⟨hsigningKeyUrl, hkey⟩ := httpsUrl_ok hsigningKeyUrl
  obtain ⟨hfingerprint, hhex⟩ := requireString_ok hfingerprint
  obtain ⟨hpriority, hrange⟩ := requireInteger_ok hpriority
  rw [Bool.and_eq_true, decide_eq_true_eq, decide_eq_true_eq] at hrange
  have hunsigned : required entries "priority" (Document.unsigned u16Max) = some priority.toNat := by
    rw [required_eq rfl, hpriority, Document.unsigned, if_pos]
    exact ⟨by omega, by simp only [u16Max]; omega⟩
  constructor
  · simp [RepositoryTransition.ofDocument, hrecord, required_string hname,
      required_string hbaseUrl, required_string hsigningKeyUrl, required_string hfingerprint,
      hunsigned]
  · intro rest
    rw [matchesAlias_eq, Bool.and_eq_true, Bool.not_eq_true'] at hvalid
    have hlow : 1 ≤ priority.toNat := by omega
    have hhigh : priority.toNat ≤ 200 := by omega
    have hspaced : (!validAlias name || !validHttpsUrl acceptsUrl baseUrl ||
        !validHttpsUrl acceptsUrl signingKeyUrl || !(1 ≤ priority.toNat && priority.toNat ≤ 200)) =
        (baseUrl.toList.any isWhitespace || signingKeyUrl.toList.any isWhitespace) := by
      simp [validHttpsUrl, hvalid.1, hbase, hkey, hlow, hhigh]
    rw [checkRepositories, hspaced, hvalid.2, validFingerprint_of_matches hhex, spaced]
    simp

/-- **The repositories** are read back, and refused only for white space. -/
theorem repositories_ok {acceptsUrl : String → Bool} {values : List Document}
    {aliases : List String} {index : ℕ} {repositories : List RepositoryTransition}
    (h : validateRepositories acceptsUrl aliases index values = .ok repositories) :
    values.mapM RepositoryTransition.ofDocument = some repositories ∧
    (checkRepositories acceptsUrl aliases repositories = .ok () ↔
      ∀ repository ∈ repositories, spaced repository = false) ∧
    (values.isEmpty = false → repositories ≠ []) := by
  induction values generalizing aliases index repositories with
  | nil =>
      cases h
      exact ⟨rfl, by simp [checkRepositories], fun hne => (by cases hne)⟩
  | cons value values ih =>
      obtain ⟨repository, hrepository, h⟩ := bind_eq_ok.mp h
      obtain ⟨rest, hrest, h⟩ := bind_eq_ok.mp h
      cases h
      obtain ⟨hread, hcheck⟩ := repository_ok hrepository
      obtain ⟨hreads, hchecks, -⟩ := ih hrest
      refine ⟨by simp [hread, hreads], ?_, fun _ => by simp⟩
      rw [hcheck, List.forall_mem_cons, ← hchecks]
      cases spaced repository <;> simp

/-! ## Policies -/

theorem dropWhile_both_eq_nil {p : Char → Bool} {cs : List Char} :
    ((cs.dropWhile p).reverse.dropWhile p).reverse = [] ↔ ∀ c ∈ cs, p c := by
  rw [List.reverse_eq_nil_iff, List.dropWhile_eq_nil_iff]
  constructor
  · intro h
    refine List.dropWhile_eq_nil_iff.mp (List.eq_nil_iff_forall_not_mem.mpr fun c hc => ?_)
    -- the first character that is left would not be dropped
    cases hdrop : cs.dropWhile p with
    | nil =>
        rw [hdrop] at hc
        cases hc
    | cons c' cs' =>
        have hne : cs.dropWhile p ≠ [] := by simp [hdrop]
        have hfirst := List.head_dropWhile_not p hne
        rw [h _ (List.mem_reverse.mpr (List.head_mem hne))] at hfirst
        cases hfirst
  · intro h c hc
    exact h c (List.dropWhile_subset p (List.mem_reverse.mp hc))

/-- Python strips more than Rust trims. -/
theorem validVendor_of_isVendor (h : isVendor s) : validVendor s := by
  simp only [isVendor, Bool.and_eq_true, Bool.not_eq_true', List.isEmpty_eq_false_iff] at h
  obtain ⟨⟨hstrip, hlength⟩, hcontrol⟩ := h
  simp only [validVendor, Bool.and_eq_true, Bool.not_eq_true', List.isEmpty_eq_false_iff]
  refine ⟨⟨fun htrim => hstrip ?_, hlength⟩, hcontrol⟩
  refine dropWhile_both_eq_nil.mpr fun c hc => ?_
  rw [isSpace, dropWhile_both_eq_nil.mp htrim c hc, Bool.true_or]

theorem scope_ok {minimum : String} {names : List String}
    (h : validateScope minimum value = .ok names) :
    Document.elements Document.string value = some names ∧ validScope (some names) ∧
      (versionBase minimum).lt (0, 2, 6) = false := by
  obtain ⟨values, hvalues, h⟩ := bind_eq_ok.mp h
  obtain ⟨read, hread, h⟩ := bind_eq_ok.mp h
  obtain ⟨_, hunique, h⟩ := bind_eq_ok.mp h
  obtain ⟨_, hfloor, h⟩ := bind_eq_ok.mp h
  cases h
  obtain ⟨hstrings, hvalid⟩ := packageNames_ok hread
  have hunique := require_ok hunique
  rw [Bool.and_eq_true] at hunique
  refine ⟨?_, ?_, by simpa using require_ok hfloor⟩
  · rw [requireList_ok hvalues]
    exact hstrings
  · simpa [validScope, hunique] using hvalid

/-- What stands in a manifest as it stands in a policy. -/
def transition (rule : VendorTransitionWire) : VendorTransition :=
  { «from» := rule.from, «to» := rule.«to», packages := rule.packages }

theorem transition_ok {minimum : String} {pairs : List ((String × String) × Bool)}
    {rule : VendorTransitionWire} (h : validateTransition minimum pairs value = .ok rule) :
    VendorTransitionWire.ofDocument value = some rule ∧
    (∀ rest, validRulesFrom pairs (transition rule :: rest) =
      validRulesFrom (((rule.from, rule.«to»), rule.packages.isSome) :: pairs) rest) ∧
    (rule.packages.isSome → (versionBase minimum).lt (0, 2, 6) = false) := by
  obtain ⟨entries, hfields, h⟩ := bind_eq_ok.mp h
  obtain ⟨origin, horigin, h⟩ := bind_eq_ok.mp h
  obtain ⟨proposed, hproposed, h⟩ := bind_eq_ok.mp h
  obtain ⟨packages, hpackages, h⟩ := bind_eq_ok.mp h
  obtain ⟨_, hpair, h⟩ := bind_eq_ok.mp h
  cases h
  obtain ⟨horigin, hfrom⟩ := requireString_ok horigin
  obtain ⟨hproposed, hto⟩ := requireString_ok hproposed
  have hrecord : value.record ["from", "to", "packages"] = some entries := by
    unfold transitionFields at hfields
    split at hfields
    · next fields hexact =>
        cases hfields
        exact (record_of_exactFields (by decide) (by decide) hexact).1
    · exact (record_of_exactFields (by decide) (List.Subset.refl _) hfields).1
  have hscope : optionalField entries "packages" (Document.elements Document.string) = some packages ∧
      validScope packages ∧
      (packages.isSome → (versionBase minimum).lt (0, 2, 6) = false) := by
    unfold validateOptionalScope member at hpackages
    unfold optionalField
    cases hlookup : entries.lookup "packages" with
    | none =>
        rw [hlookup] at hpackages
        cases hpackages
        exact ⟨rfl, rfl, fun hsome => (by cases hsome)⟩
    | some scope =>
        rw [hlookup] at hpackages
        obtain ⟨names, hnames, rfl⟩ := map_eq_ok.mp hpackages
        obtain ⟨hread, hvalid, hfloor⟩ := scope_ok hnames
        exact ⟨by simpa using hread, hvalid, fun _ => hfloor⟩
  refine ⟨?_, fun rest => ?_, hscope.2.2⟩
  · simp [VendorTransitionWire.ofDocument, hrecord, required_string horigin,
      required_string hproposed, hscope.1]
  · have hpair := require_ok hpair
    change (validVendor origin && validVendor proposed && validScope packages &&
      (pairs.lookup (origin, proposed)).all (· = packages.isSome) && _) = _
    rw [hpair, validVendor_of_isVendor hfrom, validVendor_of_isVendor hto, hscope.2.1]
    rfl

/-- **The vendor rules** are read back, and valid. -/
theorem transitions_ok {minimum : String} {values : List Document}
    {pairs : List ((String × String) × Bool)} {rules : List VendorTransitionWire}
    (h : validateTransitions minimum pairs values = .ok rules) :
    values.mapM VendorTransitionWire.ofDocument = some rules ∧
    validRulesFrom pairs (rules.map transition) ∧
    ∀ rule ∈ rules, rule.packages.isSome → (versionBase minimum).lt (0, 2, 6) = false := by
  induction values generalizing pairs rules with
  | nil =>
      cases h
      exact ⟨rfl, rfl, fun _ hmem => (by cases hmem)⟩
  | cons value values ih =>
      obtain ⟨rule, hrule, h⟩ := bind_eq_ok.mp h
      obtain ⟨rest, hrest, h⟩ := bind_eq_ok.mp h
      cases h
      obtain ⟨hread, hvalid, hfloor⟩ := transition_ok hrule
      obtain ⟨hreads, hvalids, hfloors⟩ := ih hrest
      refine ⟨by simp [hread, hreads], ?_, List.forall_mem_cons.mpr ⟨hfloor, hfloors⟩⟩
      rw [List.map_cons, hvalid]
      exact hvalids

theorem group_ok {names : List String} (h : validateGroup value = .ok names) :
    Document.elements Document.string value = some names ∧ 2 ≤ names.length ∧
      (∀ name ∈ names, validPackage name) ∧ names.Nodup := by
  obtain ⟨values, hvalues, h⟩ := bind_eq_ok.mp h
  obtain ⟨_, hlength, h⟩ := bind_eq_ok.mp h
  obtain ⟨read, hread, h⟩ := bind_eq_ok.mp h
  obtain ⟨_, hnodup, h⟩ := bind_eq_ok.mp h
  cases h
  obtain ⟨hstrings, hvalid⟩ := packageNames_ok hread
  refine ⟨?_, ?_, hvalid, by simpa using require_ok hnodup⟩
  · rw [requireList_ok hvalues]
    exact hstrings
  · rw [length_of_mapM_ok hread]
    simpa using require_ok hlength

/-! ## Migrations -/

theorem validEdition_of_matches (hlength : s.toList.length ≤ 256) (h : matchesEdition s) :
    validEdition s := by
  simp only [matchesEdition, Bool.and_eq_true, List.all_eq_true] at h
  have hascii : ∀ c ∈ s.toList, c.toNat < 128 := by
    intro c hc
    have := h.2 c hc
    simp only [Bool.or_eq_true, decide_eq_true_eq] at this
    rcases this with (((((((halnum | rfl) | rfl) | rfl) | rfl) | rfl) | rfl) | rfl)
    · exact isAlphanum_ascii halnum
    all_goals decide
  have hne : s.isEmpty = false := by
    cases hempty : s.isEmpty with
    | false => rfl
    | true =>
        rw [String.isEmpty_iff] at hempty
        subst hempty
        exact absurd h.1 (by decide)
  have hbytes := utf8ByteSize_of_ascii hascii
  simp only [validEdition, hne, hbytes, hlength, h.1, Bool.and_eq_true, List.all_eq_true]
  simp only [Bool.not_false, decide_true, and_self, true_and]
  exact h.2

/-- What the tool has established of a package of a migration. -/
structure AcceptedPackage (aliases : List String) (first : Option String) (p : PackageMigration) :
    Prop where
  name : validPackage p.name
  architecture : p.architecture = "x86_64" ∨ p.architecture = "noarch"
  repositoryAlias : p.repositoryAlias ∈ aliases
  first : first = some p.repositoryAlias
  sha256 : p.sha256.utf8ByteSize = 64 ∧ p.sha256.toList.all isHexLower
  editions : validEdition p.fromVersion ∧ validEdition p.toVersion
  vendors : validVendor p.fromVendor ∧ validVendor p.toVendor
  differ : p.fromVersion ≠ p.toVersion

theorem package_ok {aliases names : List String} {first : Option String} {p : PackageMigration}
    (h : validatePackage aliases first names value = .ok p) :
    PackageMigration.ofDocument value = some p ∧ AcceptedPackage aliases first p ∧
      p.name ∉ names := by
  obtain ⟨entries, hfields, h⟩ := bind_eq_ok.mp h
  obtain ⟨name, hname, h⟩ := bind_eq_ok.mp h
  obtain ⟨architecture, harchitecture, h⟩ := bind_eq_ok.mp h
  obtain ⟨ifInstalled, hifInstalled, h⟩ := bind_eq_ok.mp h
  obtain ⟨repositoryAlias, hrepositoryAlias, h⟩ := bind_eq_ok.mp h
  obtain ⟨sha256, hsha256, h⟩ := bind_eq_ok.mp h
  obtain ⟨fromVersion, hfromVersion, h⟩ := bind_eq_ok.mp h
  obtain ⟨toVersion, htoVersion, h⟩ := bind_eq_ok.mp h
  obtain ⟨fromVendor, hfromVendor, h⟩ := bind_eq_ok.mp h
  obtain ⟨toVendor, htoVendor, h⟩ := bind_eq_ok.mp h
  obtain ⟨_, hdiffer, h⟩ := bind_eq_ok.mp h
  cases h
  obtain ⟨hrecord, -⟩ := record_of_exactFields (by decide) (List.Subset.refl _) hfields
  obtain ⟨hname, hvalid⟩ := requireString_ok hname
  obtain ⟨harchitecture, hknown⟩ := requireString_ok harchitecture
  have hifInstalled : required entries "if_installed" Document.boolean = some ifInstalled := by
    rw [required_eq rfl, requireBoolean_ok hifInstalled]
    rfl
  obtain ⟨hrepositoryAlias, hlocation⟩ := requireString_ok hrepositoryAlias
  obtain ⟨hsha256, hdigest⟩ := requireString_ok hsha256
  obtain ⟨hfromVersion, hfrom⟩ := requireString_ok hfromVersion
  obtain ⟨htoVersion, hto⟩ := requireString_ok htoVersion
  obtain ⟨hfromVendor, hcurrent⟩ := requireString_ok hfromVendor
  obtain ⟨htoVendor, hproposed⟩ := requireString_ok htoVendor
  rw [Bool.and_eq_true, matchesPackage_eq, Bool.not_eq_true', List.contains_eq_mem,
    decide_eq_false_iff_not] at hvalid
  rw [Bool.and_eq_true, List.contains_iff_mem, decide_eq_true_eq] at hlocation
  rw [Bool.and_eq_true, decide_eq_true_eq] at hfrom hto
  simp only [matchesSha256, Bool.and_eq_true, decide_eq_true_eq] at hdigest
  have hbytes := utf8ByteSize_of_ascii fun c hc =>
    isHexLower_ascii (List.all_eq_true.mp hdigest.2 c hc)
  refine ⟨?_, ⟨hvalid.1, by simpa using hknown, hlocation.1, hlocation.2,
    ⟨hbytes.trans hdigest.1, hdigest.2⟩,
    ⟨validEdition_of_matches hfrom.1 hfrom.2, validEdition_of_matches hto.1 hto.2⟩,
    ⟨validVendor_of_isVendor hcurrent, validVendor_of_isVendor hproposed⟩,
    by simpa using require_ok hdiffer⟩, hvalid.2⟩
  simp [PackageMigration.ofDocument, hrecord, required_string hname, required_string harchitecture,
    hifInstalled, required_string hrepositoryAlias, required_string hsha256,
    required_string hfromVersion, required_string htoVersion, required_string hfromVendor,
    required_string htoVendor]

theorem packages_ok {aliases names : List String} {first : Option String} {values : List Document}
    {packages : List PackageMigration}
    (h : validatePackages aliases first names values = .ok packages) :
    values.mapM PackageMigration.ofDocument = some packages ∧
    (∀ p ∈ packages, AcceptedPackage aliases first p ∧ p.name ∉ names) ∧
    (packages.map (·.name)).Nodup ∧ packages.length = values.length := by
  induction values generalizing names packages with
  | nil =>
      cases h
      exact ⟨rfl, fun _ hmem => (by cases hmem), List.nodup_nil, rfl⟩
  | cons value values ih =>
      obtain ⟨p, hp, h⟩ := bind_eq_ok.mp h
      obtain ⟨rest, hrest, h⟩ := bind_eq_ok.mp h
      cases h
      obtain ⟨hread, haccepted, hnew⟩ := package_ok hp
      obtain ⟨hreads, haccepteds, hnodup, hlength⟩ := ih hrest
      refine ⟨by simp [hread, hreads], List.forall_mem_cons.mpr ⟨⟨haccepted, hnew⟩, ?_⟩, ?_,
        by rw [List.length_cons, List.length_cons, hlength]⟩
      · intro q hq
        obtain ⟨hq, hname⟩ := haccepteds q hq
        exact ⟨hq, fun hmem => hname (List.mem_cons_of_mem _ hmem)⟩
      · rw [List.map_cons, List.nodup_cons]
        refine ⟨fun hmem => ?_, hnodup⟩
        obtain ⟨q, hq, hname⟩ := List.mem_map.mp hmem
        exact (haccepteds q hq).2 (hname ▸ List.mem_cons_self ..)

/-- **A migration** is read back, and is one the updater accepts. -/
theorem migration_ok {manifest : ReleaseManifest} {packages : List PackageMigration}
    (h : validatePackageMigration value manifest.source manifest.target
      manifest.minimumUpdaterVersion manifest.repositories manifest.allowedRemovals
      manifest.allowedVendorTransitions manifest.lockstepPackages = .ok packages) :
    Document.elements PackageMigration.ofDocument value = some packages ∧
    (versionBase manifest.minimumUpdaterVersion).lt (0, 2, 7) = false ∧
    (manifest.packageMigration = some packages → validateMigration manifest = .ok ()) := by
  obtain ⟨values, hvalues, h⟩ := bind_eq_ok.mp h
  obtain ⟨_, hpolicy, h⟩ := bind_eq_ok.mp h
  obtain ⟨read, hread, h⟩ := bind_eq_ok.mp h
  obtain ⟨_, hmandatory, h⟩ := bind_eq_ok.mp h
  obtain ⟨_, hrules, h⟩ := bind_eq_ok.mp h
  cases h
  obtain ⟨hreads, haccepted, hnodup, hlength⟩ := packages_ok hread
  have hpolicy := require_ok hpolicy
  simp only [Bool.and_eq_true, decide_eq_true_eq, Bool.not_eq_true', and_assoc] at hpolicy
  obtain ⟨hleast, hmost, hsame, hfloor, hremovals, hgroups⟩ := hpolicy
  refine ⟨by rw [requireList_ok hvalues]; exact hreads, hfloor, fun hmigration => ?_⟩
  have hinvalid : ∀ p ∈ packages, invalidPackageMigration manifest
      (packages.head?.elim "" (·.repositoryAlias)) p = false := by
    intro p hp
    have hp' := (haccepted p hp).1
    have hfirst : packages.head?.elim "" (·.repositoryAlias) = p.repositoryAlias := by
      cases packages with
      | nil => cases hp
      | cons q qs =>
          have hq := (haccepted q (List.mem_cons_self ..)).1.first
          exact Option.some.inj (hq.symm.trans hp'.first)
    have halias : (manifest.repositories.any fun r => decide (r.alias = p.repositoryAlias)) = true := by
      obtain ⟨r, hr, hname⟩ := List.mem_map.mp hp'.repositoryAlias
      exact List.any_eq_true.mpr ⟨r, hr, by simpa using hname⟩
    simpa [invalidPackageMigration, hp'.name, hp'.editions, hp'.vendors, hp'.differ, hp'.sha256,
      halias, hfirst] using hp'.architecture.resolve_left
  have hany : packages.any (invalidPackageMigration manifest
      (packages.head?.elim "" (·.repositoryAlias))) = false := by
    rw [List.any_eq_false]
    exact fun p hp => Bool.not_eq_true _ ▸ hinvalid p hp
  have hne : packages.isEmpty = false := by
    rw [List.isEmpty_eq_false_iff, ← List.length_pos_iff]
    omega
  have hfew : ¬ 64 < packages.length := by omega
  have hsome : (packages.all (·.ifInstalled)) = false := by simpa using require_ok hmandatory
  have hscoped : (manifest.allowedVendorTransitions.any (ruleOutsideMigration packages)) = false :=
    Bool.not_eq_true' _ ▸ require_ok hrules
  unfold validateMigration
  rw [hmigration]
  dsimp only
  rw [hany, hne, hsome, hremovals, hgroups, hscoped]
  simp [hsame, hfew, hnodup]

/-! ## The manifest -/

variable {acceptsUrl : String → Bool} {isoFormat : String → Option (Option ℤ)}

/-- **What the tool has established of a manifest**, as far as the updater asks for it. -/
structure Accepted (acceptsUrl : String → Bool) (manifest : ReleaseManifest) : Prop where
  schema : manifest.schemaVersion = 1
  sequence : 0 < manifest.sequence
  space : 0 < manifest.minimumFreeSpaceBytes
  source : matchesVersion manifest.source.version
  target : matchesVersion manifest.target.version ∧ manifest.target.edition = "desktop" ∧
    manifest.target.architecture = "x86_64" ∧ manifest.target.buildId.isEmpty = false
  newer : manifest.packageMigration = none → newerTarget manifest.source manifest.target
  updater : matchesUpdaterVersion manifest.minimumUpdaterVersion
  nonempty : manifest.repositories ≠ []
  repositories : checkRepositories acceptsUrl [] manifest.repositories = .ok () ↔
    ∀ repository ∈ manifest.repositories, spaced repository = false
  removals : ∀ name ∈ manifest.allowedRemovals, validPackage name
  rules : validVendorTransitions (manifest.allowedVendorTransitions.map transition)
  floor : ∀ rule ∈ manifest.allowedVendorTransitions, rule.packages.isSome →
    (versionBase manifest.minimumUpdaterVersion).lt (0, 2, 6) = false
  groups : ∀ group ∈ manifest.lockstepPackages, 2 ≤ group.length ∧
    (∀ name ∈ group, validPackage name) ∧ group.Nodup
  migration : manifest.packageMigration.isSome → validateMigration manifest = .ok () ∧
    (versionBase manifest.minimumUpdaterVersion).lt (0, 2, 7) = false

/-- The entry of a document. -/
def entry (document : Document) (key : String) : Document :=
  match document with
  | .dict entries => member entries key
  | _ => .null

theorem timestamp_ok {label : String} {text : String} {time : ℤ}
    (h : timestamp isoFormat value label = .ok (text, time)) : value = .str text := by
  obtain ⟨read, hread, h⟩ := bind_eq_ok.mp h
  obtain ⟨hvalue, -⟩ := requireString_ok hread
  split at h <;> cases h
  exact hvalue

/-- The version of the schema is read when it is written as an integer. -/
theorem required_schema {n : ℕ} (h : equalsOne (member entries "schema_version")) :
    required entries "schema_version" (Document.unsigned u32Max) = some n ↔
      member entries "schema_version" = .int 1 ∧ n = 1 := by
  rw [required_eq rfl]
  constructor
  · intro hread
    cases hmember : member entries "schema_version" with
    | int k =>
        rw [hmember, equalsOne, decide_eq_true_eq] at h
        subst h
        rw [hmember] at hread
        cases hread
        exact ⟨rfl, rfl⟩
    | null | bool | float | str | list | dict =>
        rw [hmember] at hread
        cases hread
  · rintro ⟨hmember, rfl⟩
    rw [hmember]
    rfl

theorem optionalMigration_ok {migration : Bool} {manifest : ReleaseManifest}
    {packages : Option (List PackageMigration)}
    (hmigration : migration = (entries.lookup "package_migration").isSome)
    (h : validateOptionalMigration migration entries manifest.source manifest.target
      manifest.minimumUpdaterVersion manifest.repositories manifest.allowedRemovals
      manifest.allowedVendorTransitions manifest.lockstepPackages = .ok packages) :
    optionalField entries "package_migration" (Document.elements PackageMigration.ofDocument) =
      some packages ∧ packages.isSome = migration ∧
    (packages.isSome → (versionBase manifest.minimumUpdaterVersion).lt (0, 2, 7) = false ∧
      (manifest.packageMigration = packages → validateMigration manifest = .ok ())) := by
  unfold validateOptionalMigration member at h
  unfold optionalField
  cases hlookup : entries.lookup "package_migration" with
  | none =>
      rw [hlookup] at hmigration
      subst hmigration
      cases h
      exact ⟨rfl, rfl, fun hsome => (by cases hsome)⟩
  | some value =>
      rw [hlookup] at hmigration h
      subst hmigration
      obtain ⟨read, hread, rfl⟩ := map_eq_ok.mp h
      obtain ⟨hreads, hfloor, hvalid⟩ := migration_ok hread
      exact ⟨by simpa using hreads, rfl, fun _ => ⟨hfloor, hvalid⟩⟩

/-- **A document the tool accepts** is read by the updater as what the tool has established
of it, if its integers fit and the version of the schema is one of them. -/
theorem ofDocument_of_validate {document : Document} {manifest : ReleaseManifest}
    (h : validate acceptsUrl isoFormat document = .ok manifest) :
    Accepted acceptsUrl manifest ∧
    (manifest.sequence ≤ u64Max → manifest.minimumFreeSpaceBytes ≤ u64Max → ∀ read,
      ReleaseManifest.ofDocument document = some read ↔
        entry document "schema_version" = .int 1 ∧ read = manifest) := by
  obtain ⟨entries, hfields, h⟩ := bind_eq_ok.mp h
  obtain ⟨_, hschema, h⟩ := bind_eq_ok.mp h
  obtain ⟨sequence, hsequence, h⟩ := bind_eq_ok.mp h
  obtain ⟨status, hstatus, h⟩ := bind_eq_ok.mp h
  obtain ⟨⟨validFrom, fromTime⟩, hvalidFrom, h⟩ := bind_eq_ok.mp h
  obtain ⟨⟨validUntil, untilTime⟩, hvalidUntil, h⟩ := bind_eq_ok.mp h
  obtain ⟨_, -, h⟩ := bind_eq_ok.mp h
  obtain ⟨source, hsource, h⟩ := bind_eq_ok.mp h
  obtain ⟨target, htarget, h⟩ := bind_eq_ok.mp h
  obtain ⟨_, -, h⟩ := bind_eq_ok.mp h
  obtain ⟨_, hnewer, h⟩ := bind_eq_ok.mp h
  obtain ⟨minimum, hminimum, h⟩ := bind_eq_ok.mp h
  obtain ⟨space, hspace, h⟩ := bind_eq_ok.mp h
  obtain ⟨repositoryValues, hrepositoryValues, h⟩ := bind_eq_ok.mp h
  obtain ⟨_, hnonempty, h⟩ := bind_eq_ok.mp h
  obtain ⟨repositories, hrepositories, h⟩ := bind_eq_ok.mp h
  obtain ⟨removalValues, hremovalValues, h⟩ := bind_eq_ok.mp h
  obtain ⟨removals, hremovals, h⟩ := bind_eq_ok.mp h
  obtain ⟨transitionValues, htransitionValues, h⟩ := bind_eq_ok.mp h
  obtain ⟨transitions, htransitions, h⟩ := bind_eq_ok.mp h
  obtain ⟨groupValues, hgroupValues, h⟩ := bind_eq_ok.mp h
  obtain ⟨groups, hgroups, h⟩ := bind_eq_ok.mp h
  obtain ⟨packages, hpackages, h⟩ := bind_eq_ok.mp h
  have hmanifest := Except.ok.inj h
  -- the document, and the fields it has
  obtain rfl := dict_of_exactFields hfields
  have hrecord : (Document.dict entries).record ReleaseManifest.fields = some entries := by
    unfold requireExactFields at hfields
    cases hmigration : hasMigration (.dict entries) <;> rw [hmigration] at hfields
    · exact (record_of_exactFields (by decide) (by decide) hfields).1
    · exact (record_of_exactFields (by decide) (by decide) hfields).1
  -- the parts, each read back with what was established of it
  have hschema := require_ok hschema
  obtain ⟨hsequence, hpositive⟩ := requireInteger_ok hsequence
  obtain ⟨hminimum, hupdater⟩ := requireString_ok hminimum
  obtain ⟨hspace, hroom⟩ := requireInteger_ok hspace
  obtain ⟨hsource, hsourceVersion, -⟩ := identity_ok hsource
  obtain ⟨htarget, htargetFacts⟩ := identity_ok htarget
  obtain ⟨hrepositoryReads, hcheck, hsome⟩ := repositories_ok hrepositories
  obtain ⟨hremovalReads, hremovalsValid⟩ := packageNames_ok hremovals
  obtain ⟨htransitionReads, hrules, hfloor⟩ := transitions_ok htransitions
  have hgroupReads : groupValues.mapM (Document.elements Document.string) = some groups :=
    mapM_of_mapM_ok (fun _ _ hgroup => (group_ok hgroup).1) hgroups
  have hpackages' : validateOptionalMigration (hasMigration (.dict entries)) entries
      manifest.source manifest.target manifest.minimumUpdaterVersion manifest.repositories
      manifest.allowedRemovals manifest.allowedVendorTransitions manifest.lockstepPackages =
      .ok packages := by
    rw [← hmanifest]
    exact hpackages
  obtain ⟨hmigrationRead, hmigration, hmigrationValid⟩ := optionalMigration_ok rfl hpackages'
  rw [decide_eq_true_eq] at hpositive hroom
  have hkind : manifest.packageMigration = packages := by rw [← hmanifest]
  constructor
  · subst hmanifest
    refine ⟨rfl, ?_, ?_, hsourceVersion, htargetFacts, fun hnone => ?_, hupdater,
      hsome (by simpa using require_ok hnonempty), hcheck, hremovalsValid, hrules, hfloor,
      fun group hgroup => ?_, fun hpresent => ?_⟩
    · change 0 < sequence.toNat
      omega
    · change 0 < space.toNat
      omega
    · have hnewer := require_ok hnewer
      change packages = none at hnone
      have habsent : hasMigration (.dict entries) = false := by
        change (entries.lookup "package_migration").isSome = false
        rw [← hmigration, hnone]
        rfl
      rwa [habsent, Bool.false_or] at hnewer
    · obtain ⟨groupValue, -, hvalue⟩ := (mapM_ok_mem hgroups).2 group hgroup
      exact (group_ok hvalue).2
    · obtain ⟨hlow, hvalid⟩ := hmigrationValid hpresent
      exact ⟨hvalid rfl, hlow⟩
  · intro hsequenceFits hspaceFits read
    have hsequenceRead : required entries "sequence" (Document.unsigned u64Max) =
        some manifest.sequence := by
      rw [← hmanifest] at hsequenceFits ⊢
      rw [required_eq rfl, hsequence, Document.unsigned, if_pos]
      exact ⟨by omega, by change sequence.toNat ≤ u64Max at hsequenceFits; omega⟩
    have hspaceRead : required entries "minimum_free_space_bytes" (Document.unsigned u64Max) =
        some manifest.minimumFreeSpaceBytes := by
      rw [← hmanifest] at hspaceFits ⊢
      rw [required_eq rfl, hspace, Document.unsigned, if_pos]
      exact ⟨by omega, by change space.toNat ≤ u64Max at hspaceFits; omega⟩
    have hstatusRead : required entries "status" ManifestStatus.ofDocument = some status := by
      rw [required_eq rfl, status_ok hstatus]
    have hsourceRead : required entries "source" ReleaseIdentity.ofDocument = some source := by
      rw [required_eq rfl, hsource]
    have htargetRead : required entries "target" ReleaseIdentity.ofDocument = some target := by
      rw [required_eq rfl, htarget]
    have hlists : ∀ {α : Type} {readOne : Document → Option α} {key message : String}
        {values : List Document} {results : List α},
        requireList (member entries key) message = .ok values → values.mapM readOne = some results →
        required entries key (Document.elements readOne) = some results := by
      intro _ _ _ _ _ _ hvalues hresults
      rw [required_eq rfl, requireList_ok hvalues]
      exact hresults
    by_cases hint : member entries "schema_version" = .int 1
    · have hof : ReleaseManifest.ofDocument (.dict entries) = some manifest := by
        rw [← hmanifest]
        refine Option.bind_eq_some_iff.mpr ⟨_, hrecord, ?_⟩
        refine Option.bind_eq_some_iff.mpr ⟨_, (required_schema hschema).mpr ⟨hint, rfl⟩, ?_⟩
        refine Option.bind_eq_some_iff.mpr ⟨_, hsequenceRead, ?_⟩
        refine Option.bind_eq_some_iff.mpr ⟨_, hstatusRead, ?_⟩
        refine Option.bind_eq_some_iff.mpr ⟨_, required_string (timestamp_ok hvalidFrom), ?_⟩
        refine Option.bind_eq_some_iff.mpr ⟨_, required_string (timestamp_ok hvalidUntil), ?_⟩
        refine Option.bind_eq_some_iff.mpr ⟨_, hsourceRead, ?_⟩
        refine Option.bind_eq_some_iff.mpr ⟨_, htargetRead, ?_⟩
        refine Option.bind_eq_some_iff.mpr ⟨_, required_string hminimum, ?_⟩
        refine Option.bind_eq_some_iff.mpr ⟨_, hspaceRead, ?_⟩
        refine Option.bind_eq_some_iff.mpr ⟨_, hlists hrepositoryValues hrepositoryReads, ?_⟩
        refine Option.bind_eq_some_iff.mpr ⟨_, hlists hremovalValues hremovalReads, ?_⟩
        refine Option.bind_eq_some_iff.mpr ⟨_, hlists htransitionValues htransitionReads, ?_⟩
        refine Option.bind_eq_some_iff.mpr ⟨_, hlists hgroupValues hgroupReads, ?_⟩
        refine Option.bind_eq_some_iff.mpr ⟨_, hmigrationRead, ?_⟩
        rw [← hmanifest]
        rfl
      rw [hof, Option.some.injEq]
      exact ⟨fun hsame => ⟨hint, hsame.symm⟩, fun hsame => hsame.2.symm⟩
    · refine ⟨fun hsome => ?_, fun hsame => absurd hsame.1 hint⟩
      obtain ⟨_, hentries, hsome⟩ := Option.bind_eq_some_iff.mp hsome
      obtain rfl := Option.some.inj (hrecord.symm.trans hentries)
      obtain ⟨n, hn, -⟩ := Option.bind_eq_some_iff.mp hsome
      exact absurd ((required_schema hschema).mp hn).1 hint

end

/-! ## The route -/

/-- **What the tool leaves open** of a manifest: how large its numbers are, how the build of
its target is spelled, and what its addresses contain. -/
structure Portable (manifest : ReleaseManifest) : Prop where
  updater : Fits (versionBase manifest.minimumUpdaterVersion)
  build : manifest.target.buildId.toList.all fun c =>
    c.isAlphanum || c = '.' || c = '-' || c = '_'
  addresses : ∀ repository ∈ manifest.repositories, spaced repository = false
  versions : manifest.packageMigration = none → Fits (versionBase manifest.target.version) ∧
    (legacySource manifest.source.version ∨ Fits (versionBase manifest.source.version))

section

variable {acceptsUrl : String → Bool} {manifest : ReleaseManifest} {updaterVersion : String}
variable {current : Version}

theorem checkTargetRelease_iff (h : Accepted acceptsUrl manifest)
    (hstatus : manifest.status = .available) :
    checkTargetRelease manifest manifest.source .testing = .ok () ↔
      (manifest.target.buildId.toList.all fun c =>
        c.isAlphanum || c = '.' || c = '-' || c = '_') ∧
      (manifest.packageMigration = none → Fits (versionBase manifest.target.version) ∧
        (legacySource manifest.source.version ∨ Fits (versionBase manifest.source.version))) := by
  obtain ⟨htarget, hedition, harchitecture, hbuildId⟩ := h.target
  have hprerelease : checkTargetRelease.checkPrerelease manifest .testing = .ok () := by
    simp [checkTargetRelease.checkPrerelease]
  unfold checkTargetRelease
  rw [if_neg (by simp [h.schema, manifestSchemaVersion]), if_neg (by simp [hstatus]),
    if_neg (by simp)]
  cases hbuild : manifest.target.buildId.toList.all fun c =>
      c.isAlphanum || c = '.' || c = '-' || c = '_' with
  | false => simp
  | true =>
      rw [if_neg (by simp [hedition, harchitecture, hbuildId])]
      cases hmigration : manifest.packageMigration with
      | some packages =>
          obtain ⟨hvalid, -⟩ := h.migration (by rw [hmigration]; rfl)
          simp [hvalid, hprerelease]
      | none =>
          have hiff := validVersionTransition_iff h.source htarget (h.newer hmigration)
          cases htransition : validVersionTransition manifest.source.version
              manifest.target.version with
          | true => simpa [hprerelease] using hiff.mp htransition
          | false =>
              rw [htransition] at hiff
              simpa using hiff

theorem checkUpdater_iff (h : Accepted acceptsUrl manifest)
    (hcurrent : semanticVersion updaterVersion.toList = some current)
    (hleast : current.lt (versionBase manifest.minimumUpdaterVersion) = false) :
    checkUpdater manifest updaterVersion = .ok () ↔
      Fits (versionBase manifest.minimumUpdaterVersion) := by
  have hminimum := semanticVersion_of_updater h.updater
  unfold checkUpdater
  by_cases hfits : Fits (versionBase manifest.minimumUpdaterVersion)
  · rw [if_pos hfits] at hminimum
    have hmigration : (manifest.packageMigration.isSome &&
        (versionBase manifest.minimumUpdaterVersion).lt (0, 2, 7)) = false := by
      cases hkind : manifest.packageMigration.isSome with
      | false => rfl
      | true => rw [(h.migration hkind).2, Bool.true_and]
    have hscope : (manifest.allowedVendorTransitions.any (·.packages.isSome) &&
        (versionBase manifest.minimumUpdaterVersion).lt (0, 2, 6)) = false := by
      cases hany : manifest.allowedVendorTransitions.any (·.packages.isSome) with
      | false => rfl
      | true =>
          obtain ⟨rule, hrule, hsome⟩ := List.any_eq_true.mp hany
          rw [h.floor rule hrule hsome, Bool.true_and]
    simp [hminimum, hcurrent, hleast, hmigration, hscope, hfits]
  · rw [if_neg hfits] at hminimum
    simp [hminimum, hfits]

theorem checkPolicy_of_accepted (h : Accepted acceptsUrl manifest) :
    checkPolicy manifest = .ok () := by
  have hrules : validVendorTransitions manifest.solverPolicy.allowedVendorTransitions = true :=
    h.rules
  have hremovals : (manifest.allowedRemovals.any (!validPackage ·)) = false := by
    rw [List.any_eq_false]
    intro name hname
    simp [h.removals name hname]
  have hgroups : (manifest.lockstepPackages.any fun group =>
      group.length < 2 || group.any (!validPackage ·) || !decide group.Nodup) = false := by
    rw [List.any_eq_false]
    intro group hgroup
    obtain ⟨hlength, hvalid, hnodup⟩ := h.groups group hgroup
    have hnames : (group.any (!validPackage ·)) = false := by
      rw [List.any_eq_false]
      intro name hname
      simp [hvalid name hname]
    rw [hnames]
    simp [hnodup, Nat.not_lt.mpr hlength]
  have hspace := h.space
  unfold checkPolicy
  rw [hrules, hremovals, hgroups]
  simp [Nat.ne_of_gt hspace]

/-- **The route of an accepted manifest**, for an updater that is new enough. -/
theorem route_iff (h : Accepted acceptsUrl manifest) (hstatus : manifest.status = .available)
    (hcurrent : semanticVersion updaterVersion.toList = some current)
    (hleast : current.lt (versionBase manifest.minimumUpdaterVersion) = false) :
    validateManifestRoute acceptsUrl manifest manifest.source none updaterVersion .testing =
      .ok () ↔ Portable manifest := by
  rw [validateManifestRoute_eq_ok, checkTargetRelease_iff h hstatus, checkReplay_eq_ok,
    checkUpdater_iff h hcurrent hleast, h.repositories]
  constructor
  · rintro ⟨⟨hbuild, hversions⟩, -, hupdater, -, haddresses, -⟩
    exact ⟨hupdater, hbuild, haddresses, hversions⟩
  · rintro ⟨hupdater, hbuild, haddresses, hversions⟩
    exact ⟨⟨hbuild, hversions⟩, ⟨h.sequence, fun _ hnone => (by cases hnone)⟩, hupdater,
      h.nonempty, haddresses, checkPolicy_of_accepted h⟩

end

/-! ## The two validators -/

/-- The updater reads the document, and every version of it from the minimum on accepts the
route. -/
def Installable (acceptsUrl : String → Bool) (document : Document) : Prop :=
  ∃ manifest, ReleaseManifest.ofDocument document = some manifest ∧
    ∀ updaterVersion current, semanticVersion updaterVersion.toList = some current →
      current.lt (versionBase manifest.minimumUpdaterVersion) = false →
      validateManifestRoute acceptsUrl manifest manifest.source none updaterVersion .testing =
        .ok ()

/-- Some version of the updater is new enough. -/
def Reachable (manifest : ReleaseManifest) : Prop :=
  ∃ (updaterVersion : String) (current : Version),
    semanticVersion updaterVersion.toList = some current ∧
      current.lt (versionBase manifest.minimumUpdaterVersion) = false

/-- **What the tool accepts is installed exactly when** the version of the schema is written
as an integer and, if any updater is new enough, the manifest is portable. -/
theorem installable_iff (acceptsUrl : String → Bool) (isoFormat : String → Option (Option ℤ))
    (document : Document) (manifest : ReleaseManifest)
    (h : validate acceptsUrl isoFormat document = .ok manifest)
    (hstatus : manifest.status = .available) (hsequence : manifest.sequence ≤ u64Max)
    (hspace : manifest.minimumFreeSpaceBytes ≤ u64Max) :
    Installable acceptsUrl document ↔
      entry document "schema_version" = .int 1 ∧ (Reachable manifest → Portable manifest) := by
  obtain ⟨haccepted, hread⟩ := ofDocument_of_validate h
  have hread := hread hsequence hspace
  constructor
  · rintro ⟨read, hsome, hroutes⟩
    obtain ⟨hschema, rfl⟩ := (hread read).mp hsome
    refine ⟨hschema, ?_⟩
    rintro ⟨updaterVersion, current, hcurrent, hleast⟩
    exact (route_iff haccepted hstatus hcurrent hleast).mp
      (hroutes updaterVersion current hcurrent hleast)
  · rintro ⟨hschema, hportable⟩
    refine ⟨manifest, (hread manifest).mpr ⟨hschema, rfl⟩, fun updaterVersion current hcurrent hleast => ?_⟩
    exact (route_iff haccepted hstatus hcurrent hleast).mpr
      (hportable ⟨updaterVersion, current, hcurrent, hleast⟩)

/-! ## Samples -/

namespace Sample

def identity (version buildId : String) : Document := .dict
  [("version", .str version), ("edition", .str "desktop"), ("architecture", .str "x86_64"),
   ("build_id", .str buildId)]

def repository (baseUrl : String) : Document := .dict
  [("alias", .str "lyra"), ("base_url", .str baseUrl),
   ("signing_key_url", .str "https://lyra.example/key"),
   ("signing_key_fingerprint", .str "0123456789ABCDEF0123456789ABCDEF01234567"),
   ("priority", .int 90)]

/-- A release of the calendar scheme and its successor. -/
def document (schema : Document) (version buildId baseUrl : String) : Document := .dict
  [("schema_version", schema), ("sequence", .int 1), ("status", .str "available"),
   ("valid_from", .str "2027-01-01T00:00:00Z"), ("valid_until", .str "2027-02-01T00:00:00Z"),
   ("source", identity "27.02" "b0"), ("target", identity version buildId),
   ("minimum_updater_version", .str "0.2.7"), ("minimum_free_space_bytes", .int 1),
   ("repositories", .list [repository baseUrl]), ("allowed_removals", .list []),
   ("allowed_vendor_transitions", .list []), ("lockstep_packages", .list [])]

/-- The manifest of a document with the integer `1`. -/
def manifest (version buildId baseUrl : String) : ReleaseManifest where
  schemaVersion := 1
  sequence := 1
  status := .available
  validFrom := "2027-01-01T00:00:00Z"
  validUntil := "2027-02-01T00:00:00Z"
  source := ⟨"27.02", "desktop", "x86_64", "b0"⟩
  target := ⟨version, "desktop", "x86_64", buildId⟩
  minimumUpdaterVersion := "0.2.7"
  minimumFreeSpaceBytes := 1
  repositories := [⟨"lyra", baseUrl, "https://lyra.example/key",
    "0123456789ABCDEF0123456789ABCDEF01234567", 90⟩]
  allowedRemovals := []
  allowedVendorTransitions := []
  lockstepPackages := []
  packageMigration := none

/-- The times of the sample. -/
def isoFormat (text : String) : Option (Option ℤ) :=
  if text = "2027-01-01T00:00:00Z" then some (some 1798761600)
  else if text = "2027-02-01T00:00:00Z" then some (some 1801440000)
  else none

end Sample

theorem installable_iff_sample : Installable (fun _ => true)
    (Sample.document (.int 1) "1.0" "b1" "https://lyra.example/1.0") :=
  (installable_iff (fun _ => true) Sample.isoFormat _
    (Sample.manifest "1.0" "b1" "https://lyra.example/1.0") (by decide +kernel) rfl (by decide)
    (by decide)).mpr ⟨rfl, fun _ => ⟨by decide +kernel, by decide +kernel, by decide +kernel,
      fun _ => ⟨by decide +kernel, .inl (by decide +kernel)⟩⟩⟩

/-- The tool accepts a document that no updater installs. -/
def SignedAndRefused (document : Document) (manifest : ReleaseManifest) : Prop :=
  validate (fun _ => true) Sample.isoFormat document = .ok manifest ∧
    ¬ Installable (fun _ => true) document

theorem not_installable_of_route {document : Document} (manifest : ReleaseManifest)
    (hread : ReleaseManifest.ofDocument document = some manifest)
    (hminimum : versionBase manifest.minimumUpdaterVersion = (0, 2, 7))
    (hroute : validateManifestRoute (fun _ => true) manifest manifest.source none "0.2.7" .testing ≠
      .ok ()) : ¬ Installable (fun _ => true) document := by
  rintro ⟨read, hsome, hroutes⟩
  obtain rfl := Option.some.inj (hread.symm.trans hsome)
  exact hroute (hroutes "0.2.7" (0, 2, 7) (by decide) (by rw [hminimum]; decide))

/-- **Signed and refused**: a build with a space, an address with a space, a number of more
than 64 bits, and a version of the schema that is a truth value. -/
theorem signed_and_refused :
    SignedAndRefused (Sample.document (.int 1) "1.0" "beta 1" "https://lyra.example/1.0")
      (Sample.manifest "1.0" "beta 1" "https://lyra.example/1.0") ∧
    SignedAndRefused (Sample.document (.int 1) "1.0" "b1" "https://lyra.example/1 0")
      (Sample.manifest "1.0" "b1" "https://lyra.example/1 0") ∧
    SignedAndRefused
      (Sample.document (.int 1) "18446744073709551616.0" "b1" "https://lyra.example/1.0")
      (Sample.manifest "18446744073709551616.0" "b1" "https://lyra.example/1.0") ∧
    SignedAndRefused (Sample.document (.bool true) "1.0" "b1" "https://lyra.example/1.0")
      (Sample.manifest "1.0" "b1" "https://lyra.example/1.0") := by
  refine ⟨⟨by decide +kernel, ?_⟩, ⟨by decide +kernel, ?_⟩, ⟨by decide +kernel, ?_⟩,
    ⟨by decide +kernel, ?_⟩⟩
  · exact not_installable_of_route (Sample.manifest "1.0" "beta 1" "https://lyra.example/1.0")
      (by decide +kernel) (by decide +kernel) (by decide +kernel)
  · exact not_installable_of_route (Sample.manifest "1.0" "b1" "https://lyra.example/1 0")
      (by decide +kernel) (by decide +kernel) (by decide +kernel)
  · exact not_installable_of_route
      (Sample.manifest "18446744073709551616.0" "b1" "https://lyra.example/1.0")
      (by decide +kernel) (by decide +kernel) (by decide +kernel)
  · rintro ⟨read, hsome, -⟩
    cases hsome

end LyraUpgrade.Tool
