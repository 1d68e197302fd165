import LyraUpgrade.Service.DocumentTree

/-!
# Vendors are looked up exactly

The vendors of a transaction come from two kinds of documents, the headers of the RPM
database and the primary metadata of a repository.  As trees (`LyraUpgrade.readTree`) they
are lists of records, an identity with a vendor each: `installedHeaders` and
`candidateRecords`.  The two streaming visitors collect the catalog of these records, and a
catalog answers with the vendor of the one record of an identity or not at all
(`lookupVendor_catalogOf`).
-/

namespace LyraUpgrade

open Encoding

/-! ## Catalogs -/

/-- The catalog of some records. -/
def catalogOf (records : List (Identity × String)) : Catalog :=
  records.foldl (fun catalog record => catalog.insert record.1 record.2) []

/-- There is one record of the identity, and this is its vendor. -/
def OneRecord (records : List (Identity × String)) (identity : Identity) (vendor : String) :
    Prop :=
  records.filter (·.1 = identity) = [(identity, vendor)]

section

variable {catalog : Catalog} {records : List (Identity × String)} {identity key : Identity}
variable {vendor : String}

theorem lookup_cons_if {α β : Type} [DecidableEq α] {a b : α} {value : β} {entries : List (α × β)} :
    ((b, value) :: entries).lookup a = if a = b then some value else entries.lookup a := by
  rw [List.lookup_cons]
  by_cases h : a = b
  · rw [if_pos h, beq_iff_eq.mpr h]
  · rw [if_neg h, beq_false_of_ne h]

/-- A further record leaves a mark where there was one. -/
theorem lookup_insert : (catalog.insert key vendor).lookup identity =
    if identity = key then
      if (catalog.lookup key).isSome then some none else some (some vendor)
    else catalog.lookup identity := by
  induction catalog with
  | nil => rw [Catalog.insert, lookup_cons_if]; rfl
  | cons entry catalog ih =>
      obtain ⟨existing, value⟩ := entry
      rw [Catalog.insert]
      by_cases hexisting : existing = key
      · rw [if_pos hexisting, hexisting, lookup_cons_if, lookup_cons_if, lookup_cons_if, if_pos rfl]
        split_ifs <;> simp_all
      · rw [if_neg hexisting, lookup_cons_if, lookup_cons_if, lookup_cons_if, ih,
          if_neg (Ne.symm hexisting)]
        split_ifs <;> simp_all

/-- What a catalog holds for an identity: nothing without a record, the vendor of a single
record, and a mark for any larger number of records. -/
theorem lookup_catalogOf : (catalogOf records).lookup identity =
    match records.filter (·.1 = identity) with
    | [] => none
    | [record] => some (some record.2)
    | _ => some none := by
  induction records using List.reverseRecOn with
  | nil => rfl
  | append_singleton records record ih =>
      rw [catalogOf, List.foldl_append]
      show ((catalogOf records).insert record.1 record.2).lookup identity = _
      rw [lookup_insert, List.filter_append]
      by_cases h : identity = record.1
      · subst h
        rw [if_pos rfl, ih]
        cases hfilter : records.filter (·.1 = record.1) with
        | nil => simp
        | cons first rest => cases rest <;> simp
      · rw [if_neg h, ih, List.filter_cons, if_neg (by simpa [eq_comm] using h), List.filter_nil,
          List.append_nil]

/-- **A catalog answers for single records.**  A vendor is found exactly when there is one
record of the identity, and its vendor is valid. -/
theorem lookupVendor_catalogOf : lookupVendor (catalogOf records) identity = .ok vendor ↔
    OneRecord records identity vendor ∧ validVendor vendor := by
  rw [lookupVendor, lookup_catalogOf, OneRecord]
  cases hfilter : records.filter (·.1 = identity) with
  | nil => simp
  | cons first rest =>
      have hfirst : first.1 = identity := by
        have hmem : first ∈ records.filter (·.1 = identity) := by
          rw [hfilter]
          exact List.mem_cons_self
        simpa using (List.mem_filter.mp hmem).2
      cases rest with
      | nil =>
          obtain ⟨key, found⟩ := first
          obtain rfl : key = identity := hfirst
          by_cases hvalid : validVendor found
          · simp [Option.filter, hvalid]
            grind
          · simp [Option.filter, hvalid]
            rintro rfl
            simpa using hvalid
      | cons second rest => simp

end

/-! ## Traversals -/

mutual

/-- Everything a visitor is called with below some elements has these around it. -/
theorem length_le_of_mem_visits (parents : List Node) (tree : ElementTree) :
    ∀ call ∈ visits parents tree, parents.length ≤ call.1.length := by
  match tree with
  | .element node children =>
      intro call hcall
      rw [visits, List.mem_append, List.mem_singleton] at hcall
      rcases hcall with hcall | rfl
      · have := length_le_of_mem_visitsOf (parents ++ [node.head]) children call hcall
        simp at this
        omega
      · exact Nat.le_refl _

theorem length_le_of_mem_visitsOf (parents : List Node) (trees : List ElementTree) :
    ∀ call ∈ visitsOf parents trees, parents.length ≤ call.1.length := by
  match trees with
  | [] => simp [visitsOf]
  | tree :: trees =>
      intro call hcall
      rw [visitsOf, List.mem_append] at hcall
      rcases hcall with hcall | hcall
      · exact length_le_of_mem_visits parents tree call hcall
      · exact length_le_of_mem_visitsOf parents trees call hcall

end

section

variable {σ : Type} {closed : Visitor σ} {s s' : σ} {parents : List Node} {tree : ElementTree}
variable {trees : List ElementTree} {depth : ℕ}

/-- The visitor does nothing further down than so many levels. -/
def Shallow (closed : Visitor σ) (depth : ℕ) : Prop :=
  ∀ s parents node, depth < parents.length → closed s parents node = .ok s

theorem callAll_of_forall {calls : List (List Node × Node)}
    (h : ∀ call ∈ calls, ∀ s, closed s call.1 call.2 = .ok s) : callAll closed s calls = .ok s := by
  induction calls with
  | nil => rfl
  | cons call calls ih =>
      obtain ⟨hcall, hcalls⟩ := List.forall_mem_cons.mp h
      rw [callAll, List.foldlM_cons]
      exact bind_eq_ok.mpr ⟨s, hcall s, ih hcalls⟩

/-- Below the last level it looks at, only the element itself counts. -/
theorem callAll_visits_of_shallow (h : Shallow closed depth) (hlength : parents.length = depth) :
    callAll closed s (visits parents tree) = closed s parents tree.node := by
  obtain ⟨node, children⟩ := tree
  have hbelow : callAll closed s (visitsOf (parents ++ [node.head]) children) = .ok s := by
    refine callAll_of_forall fun call hcall s => h s call.1 call.2 ?_
    have := length_le_of_mem_visitsOf _ _ call hcall
    simp at this
    omega
  rw [visits, callAll_append, hbelow]
  exact callAll_singleton closed s parents node

/-- An element is visited after its children. -/
theorem callAll_visits_eq_ok : callAll closed s (visits parents tree) = .ok s' ↔
    ∃ mid, callAll closed s (visitsOf (parents ++ [tree.node.head]) tree.children) = .ok mid ∧
      closed mid parents tree.node = .ok s' := by
  obtain ⟨node, children⟩ := tree
  rw [visits, callAll_append, bind_eq_ok]
  simp only [callAll_singleton]
  rfl

theorem callAll_visitsOf_cons_eq_ok : callAll closed s (visitsOf parents (tree :: trees)) = .ok s' ↔
    ∃ mid, callAll closed s (visits parents tree) = .ok mid ∧
      callAll closed mid (visitsOf parents trees) = .ok s' := by
  rw [visitsOf, callAll_append, bind_eq_ok]

end

/-! ## RPM headers -/

/-- The fields of a header: its elements without a namespace. -/
def ElementTree.fields (self : ElementTree) : List String :=
  (self.children.filter (·.node.ns.isEmpty)).map (·.node.text)

/-- The identity and the vendor of a header. -/
def header? (package : ElementTree) : Option (Identity × String) :=
  match package.fields with
  | [name, epoch, version, release, architecture, vendor] =>
      (edition epoch version release).toOption.map fun edition =>
        (⟨name, edition, architecture⟩, vendor)
  | _ => none

/-- The headers of an RPM database. -/
def installedHeaders (root : ElementTree) : List (Identity × String) :=
  (root.named "" "package").filterMap header?

section

variable {catalog catalog' : Catalog} {fields fields' : List String} {root package : Node}
variable {tree : ElementTree} {trees : List ElementTree} {xml : XmlDocument}

theorem textBlind_visitInstalled : TextBlind visitInstalled := by
  rintro ⟨catalog, fields⟩ parents node
  match parents with
  | [] => rfl
  | [_] => rfl
  | [_, _] => rfl
  | _ :: _ :: _ :: _ => rfl

theorem shallow_visitInstalled : Shallow visitInstalled 2 := by
  rintro ⟨catalog, fields⟩ parents node hlength
  match parents with
  | [] | [_] | [_, _] => simp at hlength
  | _ :: _ :: _ :: _ => rfl

/-- The elements of a package are its fields. -/
theorem visitInstalled_fields
    (h : callAll visitInstalled (catalog, fields) (visitsOf [root, package] trees) =
      .ok (catalog', fields')) :
    catalog' = catalog ∧ fields' = if package.is "" "package" then
      fields ++ (trees.filter (·.node.ns.isEmpty)).map (·.node.text) else fields := by
  induction trees generalizing fields with
  | nil =>
      cases h
      simp
  | cons tree trees ih =>
      obtain ⟨⟨catalog₁, fields₁⟩, hfirst, hrest⟩ := callAll_visitsOf_cons_eq_ok.mp h
      rw [callAll_visits_of_shallow shallow_visitInstalled rfl, visitInstalled] at hfirst
      by_cases hpackage : package.is "" "package" <;> by_cases hns : tree.node.ns.isEmpty
      · rw [if_pos (by simp [hpackage, hns])] at hfirst
        split_ifs at hfirst
        cases hfirst
        obtain ⟨rfl, rfl⟩ := ih hrest
        simp [hpackage, hns]
      · rw [if_neg (by simp [hns])] at hfirst
        cases hfirst
        obtain ⟨rfl, rfl⟩ := ih hrest
        simp [hpackage, hns]
      · rw [if_neg (by simp [hpackage])] at hfirst
        cases hfirst
        obtain ⟨rfl, rfl⟩ := ih hrest
        simp [hpackage]
      · rw [if_neg (by simp [hpackage])] at hfirst
        cases hfirst
        obtain ⟨rfl, rfl⟩ := ih hrest
        simp [hpackage]

/-- What the visitor does where a child of the root is closed. -/
theorem visitInstalled_close (catalog : Catalog) (fields : List String) (root node : Node) :
    visitInstalled (catalog, fields) [root] node =
      if node.is "" "package" then
        match fields with
        | [name, epoch, version, release, architecture, vendor] => do
            let edition ← edition epoch version release
            return (catalog.insert ⟨name, edition, architecture⟩ vendor, [])
        | _ => .error (.invalid "incomplete RPM header")
      else .ok (catalog, fields) := rfl

/-- A package becomes a record, anything else below the root is passed over. -/
theorem visitInstalled_package
    (h : callAll visitInstalled (catalog, []) (visits [root] tree) = .ok (catalog', fields')) :
    fields' = [] ∧
      if tree.node.is "" "package" then
        ∃ record, header? tree = some record ∧ catalog' = catalog.insert record.1 record.2
      else catalog' = catalog := by
  obtain ⟨⟨catalog₁, fields₁⟩, hbelow, hclose⟩ := callAll_visits_eq_ok.mp h
  obtain ⟨rfl, rfl⟩ := visitInstalled_fields hbelow
  have hhead : tree.node.head.is "" "package" = tree.node.is "" "package" := rfl
  rw [visitInstalled_close, hhead] at hclose
  by_cases hpackage : tree.node.is "" "package"
  · simp only [if_pos hpackage, List.nil_append] at hclose ⊢
    rw [header?, ElementTree.fields]
    split at hclose
    · obtain ⟨edition, hedition, hclose⟩ := bind_eq_ok.mp hclose
      cases hclose
      exact ⟨rfl, _, by simp only [hedition]; rfl, rfl⟩
    · cases hclose
  · simp only [if_neg hpackage] at hclose ⊢
    cases hclose
    exact ⟨rfl, rfl⟩

/-- The children of the root one after the other. -/
theorem visitInstalled_packages
    (h : callAll visitInstalled (catalog, []) (visitsOf [root] trees) = .ok (catalog', fields')) :
    fields' = [] ∧
      (∀ tree ∈ trees, tree.node.is "" "package" → (header? tree).isSome) ∧
      catalog' = ((trees.filter (·.node.is "" "package")).filterMap header?).foldl
        (fun catalog record => catalog.insert record.1 record.2) catalog := by
  induction trees generalizing catalog with
  | nil =>
      cases h
      simp
  | cons tree trees ih =>
      obtain ⟨⟨catalog₁, fields₁⟩, hfirst, hrest⟩ := callAll_visitsOf_cons_eq_ok.mp h
      obtain ⟨rfl, hcatalog⟩ := visitInstalled_package hfirst
      obtain ⟨rfl, hall, rfl⟩ := ih hrest
      rw [List.forall_mem_cons, List.filter_cons]
      by_cases hpackage : tree.node.is "" "package"
      · rw [if_pos hpackage] at hcatalog ⊢
        obtain ⟨record, hrecord, rfl⟩ := hcatalog
        refine ⟨rfl, ⟨fun _ => by rw [hrecord]; rfl, hall⟩, ?_⟩
        rw [List.filterMap_cons_some hrecord, List.foldl_cons]
      · rw [if_neg hpackage] at hcatalog ⊢
        obtain rfl := hcatalog
        exact ⟨rfl, ⟨fun h => absurd h hpackage, hall⟩, rfl⟩

/-- **The catalog of an RPM database** is the one of its headers, and every package has one. -/
theorem installedVendors_eq_ok (h : installedVendors xml = .ok catalog) :
    ∃ root, readTree xml "" "rpmdb" = .ok root ∧ catalog = catalogOf (installedHeaders root) ∧
      ∀ package ∈ root.named "" "package", (header? package).isSome := by
  obtain ⟨⟨catalog', fields⟩, hwalk, rfl⟩ := map_eq_ok.mp h
  obtain ⟨root, hroot, hcalls⟩ := walk_eq_ok textBlind_visitInstalled hwalk
  obtain ⟨⟨catalog₁, fields₁⟩, hbelow, hclose⟩ := callAll_visits_eq_ok.mp hcalls
  cases hclose
  obtain ⟨-, hall, rfl⟩ := visitInstalled_packages hbelow
  refine ⟨root, hroot, rfl, fun package hpackage => ?_⟩
  obtain ⟨hmem, his⟩ := List.mem_filter.mp hpackage
  exact hall package hmem his

end

/-! ## Candidates -/

/-- The texts of the children of a name. -/
def ElementTree.texts (self : ElementTree) (ns name : String) : List String :=
  (self.named ns name).map (·.node.text)

/-- The element of a list that has one. -/
def only {α : Type} : List α → Option α
  | [a] => some a
  | _ => none

/-- The edition a `version` element states. -/
def versionEdition (node : Node) : VendorResult String := do
  edition (← node.attr "epoch") (← node.attr "ver") (← node.attr "rel")

/-- The vendor of a package, from its formats; it may be missing. -/
def candidateVendor (package : ElementTree) : Option String :=
  match (package.named common "format").flatMap (·.texts rpm "vendor") with
  | [] => some ""
  | vendors => only vendors

/-- The identity and the vendor of a package in primary metadata. -/
def candidateRecord (package : ElementTree) : Option (Identity × String) := do
  let name ← only (package.texts common "name")
  let version ← only (package.named common "version")
  let edition ← (versionEdition version.node).toOption
  let architecture ← only (package.texts common "arch")
  let vendor ← candidateVendor package
  return (⟨name, edition, architecture⟩, vendor)

/-- The packages of primary metadata. -/
def candidateRecords (root : ElementTree) : List (Identity × String) :=
  (root.named common "package").filterMap candidateRecord

section

variable {catalog catalog' : Catalog} {fields fields' : List (String × String)}
variable {wanted : List Identity} {parents : List Node} {root package node : Node}
variable {tree : ElementTree} {trees : List ElementTree} {xml : XmlDocument} {key value : String}

theorem primaryField_head (parents : List Node) (node : Node) :
    primaryField (parents.map Node.head) node = primaryField parents node := by
  match parents with
  | [] => rfl
  | [_] => rfl
  | [_, _] => rfl
  | [_, _, _] => rfl
  | _ :: _ :: _ :: _ :: _ => rfl

theorem textBlind_visitPrimary (wanted : List Identity) : TextBlind (visitPrimary wanted) := by
  rintro ⟨catalog, fields⟩ parents node
  simp only [visitPrimary, primaryField_head, List.length_map]

theorem shallow_visitPrimary (wanted : List Identity) : Shallow (visitPrimary wanted) 3 := by
  rintro ⟨catalog, fields⟩ parents node hlength
  match parents with
  | [] | [_] | [_, _] | [_, _, _] => simp at hlength
  | _ :: _ :: _ :: _ :: _ => rfl

/-- The field an element is, as a list. -/
def entriesAt (parents : List Node) (node : Node) : List (String × String) :=
  match primaryField parents node with
  | .ok (some entry) => [entry]
  | _ => []

theorem reverse_entriesAt (parents : List Node) (node : Node) :
    (entriesAt parents node).reverse = entriesAt parents node := by
  unfold entriesAt
  split <;> rfl

/-- Where no package ends, the visitor adds a field, whose key is new. -/
theorem visitPrimary_field (hlength : parents.length ≠ 1) (hnodup : (fields.map (·.1)).Nodup)
    (h : visitPrimary wanted (catalog, fields) parents node = .ok (catalog', fields')) :
    catalog' = catalog ∧ fields' = entriesAt parents node ++ fields ∧
      (fields'.map (·.1)).Nodup ∧ ∃ found, primaryField parents node = .ok found := by
  obtain ⟨found, hfound, h⟩ := bind_eq_ok.mp h
  have hnot : ¬ (parents.length = 1 && node.is common "package") = true := by simp [hlength]
  rw [entriesAt, hfound]
  cases found with
  | none =>
      change (if (parents.length = 1 && node.is common "package") = true then _ else _) = _ at h
      rw [if_neg hnot] at h
      cases h
      exact ⟨rfl, rfl, hnodup, none, rfl⟩
  | some entry =>
      obtain ⟨key, value⟩ := entry
      dsimp only at h
      split_ifs at h with hknown
      · cases h
      · cases h
        refine ⟨rfl, rfl, List.nodup_cons.mpr ⟨fun hmem => hknown ?_, hnodup⟩, _, rfl⟩
        obtain ⟨known, hin, hkey⟩ := List.mem_map.mp hmem
        exact List.lookup_isSome_iff.mpr ⟨known, hin, beq_iff_eq.mpr hkey.symm⟩

/-- The fields of the elements below a package, in the order they are met. -/
def entriesBelow (root package : Node) (tree : ElementTree) : List (String × String) :=
  tree.children.flatMap (fun child => entriesAt [root, package, tree.node.head] child.node) ++
    entriesAt [root, package] tree.node

theorem visitPrimary_below (hnodup : (fields.map (·.1)).Nodup)
    (h : callAll (visitPrimary wanted) (catalog, fields)
      (visitsOf [root, package, node] trees) = .ok (catalog', fields')) :
    catalog' = catalog ∧ (fields'.map (·.1)).Nodup ∧
      fields' = (trees.flatMap fun child => entriesAt [root, package, node] child.node).reverse ++
        fields := by
  induction trees generalizing fields with
  | nil =>
      cases h
      exact ⟨rfl, hnodup, rfl⟩
  | cons tree trees ih =>
      obtain ⟨⟨catalog₁, fields₁⟩, hfirst, hrest⟩ := callAll_visitsOf_cons_eq_ok.mp h
      rw [callAll_visits_of_shallow (shallow_visitPrimary wanted) rfl] at hfirst
      obtain ⟨rfl, rfl, hnodup', -⟩ := visitPrimary_field (by simp) hnodup hfirst
      obtain ⟨rfl, hnodup'', rfl⟩ := ih hnodup' hrest
      refine ⟨rfl, hnodup'', ?_⟩
      rw [List.flatMap_cons, List.reverse_append, reverse_entriesAt, List.append_assoc]

/-- The elements of a package add their fields. -/
theorem visitPrimary_fields (hnodup : (fields.map (·.1)).Nodup)
    (h : callAll (visitPrimary wanted) (catalog, fields) (visitsOf [root, package] trees) =
      .ok (catalog', fields')) :
    catalog' = catalog ∧ (fields'.map (·.1)).Nodup ∧
      fields' = (trees.flatMap (entriesBelow root package)).reverse ++ fields ∧
      ∀ tree ∈ trees, ∃ found, primaryField [root, package] tree.node = .ok found := by
  induction trees generalizing fields with
  | nil =>
      cases h
      exact ⟨rfl, hnodup, rfl, by simp⟩
  | cons tree trees ih =>
      obtain ⟨⟨catalog₂, fields₂⟩, hfirst, hrest⟩ := callAll_visitsOf_cons_eq_ok.mp h
      obtain ⟨⟨catalog₁, fields₁⟩, hbelow, hclose⟩ := callAll_visits_eq_ok.mp hfirst
      obtain ⟨rfl, hnodup₁, rfl⟩ := visitPrimary_below hnodup hbelow
      obtain ⟨rfl, rfl, hnodup₂, hfound⟩ := visitPrimary_field (by simp) hnodup₁ hclose
      obtain ⟨rfl, hnodup', rfl, hall⟩ := ih hnodup₂ hrest
      refine ⟨rfl, hnodup', ?_, List.forall_mem_cons.mpr ⟨hfound, hall⟩⟩
      rw [List.flatMap_cons, entriesBelow, List.reverse_append, List.reverse_append,
        reverse_entriesAt, List.append_assoc, List.append_assoc]

/-! ### The fields of a package -/

theorem primaryField_package (hpackage : package.is common "package") :
    primaryField [root, package] node =
      if node.is common "name" then .ok (some ("name", node.text))
      else if node.is common "arch" then .ok (some ("arch", node.text))
      else if node.is common "version" then
        (fun edition => some ("edition", edition)) <$> versionEdition node
      else .ok none := by
  simp only [primaryField, hpackage, Bool.not_true, Bool.false_eq_true, if_false]
  split_ifs
  · rfl
  · rfl
  · rw [versionEdition]
    cases node.attr "epoch" with
    | error e => rfl
    | ok epoch =>
        cases node.attr "ver" with
        | error e => rfl
        | ok version => cases node.attr "rel" <;> rfl
  · rfl

theorem entriesAt_package (hpackage : package.is common "package") : entriesAt [root, package] node =
    if node.is common "name" then [("name", node.text)]
    else if node.is common "arch" then [("arch", node.text)]
    else if node.is common "version" then
      (versionEdition node).toOption.toList.map fun edition => ("edition", edition)
    else [] := by
  rw [entriesAt, primaryField_package hpackage]
  split_ifs
  · rfl
  · rfl
  · cases versionEdition node <;> rfl
  · rfl

theorem entriesAt_format {format : Node} (hpackage : package.is common "package") :
    entriesAt [root, package, format] node =
      if format.is common "format" && node.is rpm "vendor" then [("vendor", node.text)] else [] := by
  simp only [entriesAt, primaryField, hpackage, Bool.true_and]
  split_ifs <;> rfl

theorem flatMap_ite {α β : Type} (p : α → Bool) (f : α → List β) (xs : List α) :
    (xs.flatMap fun x => if p x then f x else []) = (xs.filter p).flatMap f := by
  induction xs with
  | nil => rfl
  | cons x xs ih =>
      rw [List.flatMap_cons, ih, List.filter_cons]
      split_ifs
      · rw [List.flatMap_cons]
      · rfl

theorem filter_entriesAt (hpackage : package.is common "package") :
    (entriesAt [root, package] node).filter (·.1 = "name") =
      (if node.is common "name" then [("name", node.text)] else []) ∧
    (entriesAt [root, package] node).filter (·.1 = "arch") =
      (if node.is common "arch" then [("arch", node.text)] else []) ∧
    (entriesAt [root, package] node).filter (·.1 = "edition") =
      (if node.is common "version" then
        (versionEdition node).toOption.toList.map fun edition => ("edition", edition) else []) ∧
    (entriesAt [root, package] node).filter (·.1 = "vendor") = [] := by
  rw [entriesAt_package hpackage]
  split_ifs with hname harch hversion harch hversion hversion <;> simp_all [Node.is]

/-- The fields of a package, key by key. -/
theorem filter_entries (hpackage : tree.node.is common "package") :
    let entries := tree.children.flatMap (entriesBelow root tree.node.head)
    entries.filter (·.1 = "name") = (tree.texts common "name").map (("name", ·)) ∧
    entries.filter (·.1 = "arch") = (tree.texts common "arch").map (("arch", ·)) ∧
    entries.filter (·.1 = "edition") = (tree.named common "version").flatMap (fun version =>
      (versionEdition version.node).toOption.toList.map fun edition => ("edition", edition)) ∧
    entries.filter (·.1 = "vendor") =
      ((tree.named common "format").flatMap (·.texts rpm "vendor")).map (("vendor", ·)) := by
  have hhead : tree.node.head.is common "package" := hpackage
  have hbelow : ∀ child : ElementTree, entriesBelow root tree.node.head child =
      (if child.node.is common "format" then (child.texts rpm "vendor").map (("vendor", ·)) else []) ++
      entriesAt [root, tree.node.head] child.node := by
    intro child
    have hformat : child.node.head.is common "format" = child.node.is common "format" := rfl
    rw [entriesBelow]
    congr 1
    simp only [entriesAt_format hhead, hformat]
    by_cases h : child.node.is common "format"
    · simp only [h, Bool.true_and, flatMap_ite, if_true]
      rw [← List.map_eq_flatMap, ElementTree.texts, List.map_map]
      rfl
    · simp [h]
  -- a format only adds vendors
  have hvendors : ∀ (child : ElementTree) (key : String),
      (if child.node.is common "format" then (child.texts rpm "vendor").map (("vendor", ·))
        else []).filter (·.1 = key) =
      if key = "vendor" then
        if child.node.is common "format" then (child.texts rpm "vendor").map (("vendor", ·)) else []
      else [] := by
    intro child key
    by_cases hkey : key = "vendor"
    · rw [if_pos hkey, hkey]
      split_ifs
      · exact List.filter_eq_self.mpr (by simp)
      · rfl
    · rw [if_neg hkey, List.filter_eq_nil_iff]
      split_ifs <;> simp [Ne.symm hkey]
  have hfilter : ∀ key, (tree.children.flatMap (entriesBelow root tree.node.head)).filter (·.1 = key) =
      tree.children.flatMap fun child =>
        (if key = "vendor" then
          if child.node.is common "format" then (child.texts rpm "vendor").map (("vendor", ·)) else []
        else []) ++ (entriesAt [root, tree.node.head] child.node).filter (·.1 = key) := by
    intro key
    rw [List.filter_flatMap]
    refine List.flatMap_congr fun child _ => ?_
    rw [hbelow, List.filter_append, hvendors]
  refine ⟨?_, ?_, ?_, ?_⟩
  · rw [hfilter, ElementTree.texts, List.map_map, List.map_eq_flatMap, ElementTree.named,
      ← flatMap_ite]
    refine List.flatMap_congr fun child _ => ?_
    rw [if_neg (by decide), (filter_entriesAt hhead).1]
    rfl
  · rw [hfilter, ElementTree.texts, List.map_map, List.map_eq_flatMap, ElementTree.named,
      ← flatMap_ite]
    refine List.flatMap_congr fun child _ => ?_
    rw [if_neg (by decide), (filter_entriesAt hhead).2.1]
    rfl
  · rw [hfilter, ElementTree.named, ← flatMap_ite]
    refine List.flatMap_congr fun child _ => ?_
    rw [if_neg (by decide), (filter_entriesAt hhead).2.2.1]
    rfl
  · rw [hfilter, List.map_flatMap, ElementTree.named, ← flatMap_ite]
    refine List.flatMap_congr fun child _ => ?_
    rw [if_pos rfl, (filter_entriesAt hhead).2.2.2, List.append_nil]

/-- Outside packages nothing is a field. -/
theorem entriesBelow_eq_nil (hpackage : package.is common "package" = false) :
    entriesBelow root package tree = [] := by
  simp [entriesBelow, entriesAt, primaryField, hpackage]

/-- With every key once, a key that is found has this one entry. -/
theorem filter_of_lookup (hnodup : (fields.map (·.1)).Nodup) (h : fields.lookup key = some value) :
    fields.filter (·.1 = key) = [(key, value)] := by
  induction fields with
  | nil => cases h
  | cons entry fields ih =>
      obtain ⟨k, v⟩ := entry
      rw [List.map_cons, List.nodup_cons] at hnodup
      rw [lookup_cons_if] at h
      rw [List.filter_cons]
      split_ifs at h with hkey
      · cases h
        have hnone : fields.filter (·.1 = key) = [] := by
          rw [List.filter_eq_nil_iff]
          intro entry hentry hsame
          have hmem : entry.1 ∈ fields.map (·.1) := List.mem_map_of_mem hentry
          rw [of_decide_eq_true hsame, hkey] at hmem
          exact hnodup.1 hmem
        rw [if_pos (by simpa using hkey.symm), hnone, hkey]
      · rw [if_neg (by simpa [eq_comm] using hkey)]
        exact ih hnodup.2 h

theorem filter_of_lookup_none (h : fields.lookup key = none) : fields.filter (·.1 = key) = [] := by
  rw [List.filter_eq_nil_iff]
  intro entry hentry hsame
  have hne := List.lookup_eq_none_iff.mp h entry hentry
  rw [of_decide_eq_true hsame] at hne
  simp at hne

/-- A package that has its fields is the record of them. -/
theorem candidateRecord_eq {name edition architecture : String}
    (hpackage : tree.node.is common "package")
    (hfound : ∀ child ∈ tree.children,
      ∃ found, primaryField [root, tree.node.head] child.node = .ok found)
    (hfields : fields = (tree.children.flatMap (entriesBelow root tree.node.head)).reverse)
    (hnodup : (fields.map (·.1)).Nodup) (hname : fields.lookup "name" = some name)
    (hedition : fields.lookup "edition" = some edition)
    (harchitecture : fields.lookup "arch" = some architecture) :
    candidateRecord tree =
      some (⟨name, edition, architecture⟩, (fields.lookup "vendor").getD "") := by
  obtain ⟨hnames, harches, heditions, hvendors⟩ := @filter_entries root tree hpackage
  have hfilter : ∀ key, (tree.children.flatMap (entriesBelow root tree.node.head)).filter
      (·.1 = key) = (fields.filter (·.1 = key)).reverse := by
    intro key
    rw [hfields, List.filter_reverse, List.reverse_reverse]
  rw [hfilter, filter_of_lookup hnodup hname] at hnames
  rw [hfilter, filter_of_lookup hnodup harchitecture] at harches
  rw [hfilter, filter_of_lookup hnodup hedition] at heditions
  rw [hfilter] at hvendors
  obtain ⟨_, hname', hsame⟩ := List.map_eq_singleton_iff.mp hnames.symm
  cases hsame
  obtain ⟨_, harch', hsame⟩ := List.map_eq_singleton_iff.mp harches.symm
  cases hsame
  have hversions : ∀ version ∈ tree.named common "version", ∃ edition,
      versionEdition version.node = .ok edition := by
    intro version hversion
    obtain ⟨hmem, his⟩ := List.mem_filter.mp hversion
    obtain ⟨found, hfound⟩ := hfound version hmem
    have hhead : tree.node.head.is common "package" := hpackage
    have hother : version.node.is common "name" = false ∧ version.node.is common "arch" = false := by
      simp only [Node.is, Bool.and_eq_true, decide_eq_true_eq] at his
      simp [Node.is, his]
    rw [primaryField_package hhead, hother.1, hother.2, his] at hfound
    obtain ⟨edition, hedition, -⟩ := map_eq_ok.mp hfound
    exact ⟨edition, hedition⟩
  have hversion : ∃ version, tree.named common "version" = [version] ∧
      versionEdition version.node = .ok edition := by
    cases hnamed : tree.named common "version" with
    | nil =>
        rw [hnamed] at heditions
        cases heditions
    | cons version rest =>
        obtain ⟨e, he⟩ := hversions version (by rw [hnamed]; exact List.mem_cons_self)
        rw [hnamed, List.flatMap_cons, he] at heditions
        cases rest with
        | nil =>
            cases heditions
            exact ⟨version, rfl, he⟩
        | cons second rest =>
            obtain ⟨e', he'⟩ := hversions second (by rw [hnamed]; simp)
            rw [List.flatMap_cons, he'] at heditions
            cases heditions
  obtain ⟨version, hversion, hedition'⟩ := hversion
  have hvendor : candidateVendor tree = some ((fields.lookup "vendor").getD "") := by
    rw [candidateVendor]
    cases hlookup : fields.lookup "vendor" with
    | none =>
        rw [filter_of_lookup_none hlookup] at hvendors
        rw [List.map_eq_nil_iff.mp hvendors.symm]
        rfl
    | some vendor =>
        rw [filter_of_lookup hnodup hlookup] at hvendors
        obtain ⟨_, hsingle, hsame⟩ := List.map_eq_singleton_iff.mp hvendors.symm
        cases hsame
        rw [hsingle]
        rfl
  simp only [candidateRecord, hname', harch', hversion, hedition', hvendor, only, Except.toOption,
    Option.bind_eq_bind, Option.bind_some, Option.pure_def]

/-! ### The catalog of a repository -/

theorem requiredField_eq_ok : requiredField fields key = .ok value ↔
    fields.lookup key = some value := by
  rw [requiredField]
  cases fields.lookup key <;> simp

/-- A package that ends has its fields; it is recorded if it is wanted. -/
theorem closePackage_eq_ok (h : closePackage wanted catalog fields node = .ok catalog') :
    ∃ name edition architecture, fields.lookup "name" = some name ∧
      fields.lookup "edition" = some edition ∧ fields.lookup "arch" = some architecture ∧
      catalog' = if wanted.contains ⟨name, edition, architecture⟩ then
        catalog.insert ⟨name, edition, architecture⟩ ((fields.lookup "vendor").getD "")
      else catalog := by
  obtain ⟨name, hname, h⟩ := bind_eq_ok.mp h
  obtain ⟨edition, hedition, h⟩ := bind_eq_ok.mp h
  obtain ⟨architecture, harchitecture, h⟩ := bind_eq_ok.mp h
  refine ⟨name, edition, architecture, requiredField_eq_ok.mp hname,
    requiredField_eq_ok.mp hedition, requiredField_eq_ok.mp harchitecture, ?_⟩
  dsimp only at h
  by_cases hwanted : wanted.contains ⟨name, edition, architecture⟩
  · rw [if_pos hwanted]
    rw [if_neg (by rw [hwanted]; decide)] at h
    obtain ⟨type, -, h⟩ := bind_eq_ok.mp h
    split_ifs at h
    · cases h
    · cases h
      rfl
  · rw [if_neg hwanted]
    rw [if_pos (by simpa using hwanted)] at h
    cases h
    rfl

/-- What the visitor does where a child of the root is closed. -/
theorem visitPrimary_close (wanted : List Identity) (catalog : Catalog)
    (fields : List (String × String)) (root node : Node) :
    visitPrimary wanted (catalog, fields) [root] node =
      if node.is common "package" then do
        return (← closePackage wanted catalog fields node, [])
      else .ok (catalog, fields) := by
  by_cases h : node.is common "package"
  · rw [if_pos h]
    change (if (true && node.is common "package") = true then _ else _) = _
    rw [if_pos (by simpa using h)]
  · rw [if_neg h]
    change (if (true && node.is common "package") = true then _ else _) = _
    rw [if_neg (by simpa using h)]
    rfl

/-- A package becomes a record if it is wanted, anything else below the root is passed over. -/
theorem visitPrimary_package
    (h : callAll (visitPrimary wanted) (catalog, []) (visits [root] tree) =
      .ok (catalog', fields')) :
    fields' = [] ∧
      if tree.node.is common "package" then
        ∃ record, candidateRecord tree = some record ∧
          catalog' = if wanted.contains record.1 then catalog.insert record.1 record.2 else catalog
      else catalog' = catalog := by
  obtain ⟨⟨catalog₁, fields₁⟩, hbelow, hclose⟩ := callAll_visits_eq_ok.mp h
  obtain ⟨rfl, hnodup, hfields, hfound⟩ := visitPrimary_fields (by simp) hbelow
  rw [List.append_nil] at hfields
  rw [visitPrimary_close] at hclose
  by_cases hpackage : tree.node.is common "package"
  · rw [if_pos hpackage] at hclose ⊢
    obtain ⟨closed, hclosed, hclose⟩ := bind_eq_ok.mp hclose
    cases hclose
    obtain ⟨name, edition, architecture, hname, hedition, harchitecture, rfl⟩ :=
      closePackage_eq_ok hclosed
    exact ⟨rfl, _, candidateRecord_eq hpackage hfound hfields hnodup hname hedition harchitecture,
      rfl⟩
  · rw [if_neg hpackage] at hclose ⊢
    cases hclose
    have hnone : tree.node.head.is common "package" = false := Bool.eq_false_iff.mpr hpackage
    rw [hfields]
    simp [entriesBelow_eq_nil hnone]

/-- The children of the root one after the other. -/
theorem visitPrimary_packages
    (h : callAll (visitPrimary wanted) (catalog, []) (visitsOf [root] trees) =
      .ok (catalog', fields')) :
    fields' = [] ∧
      (∀ tree ∈ trees, tree.node.is common "package" → (candidateRecord tree).isSome) ∧
      catalog' = (((trees.filter (·.node.is common "package")).filterMap candidateRecord).filter
        (wanted.contains ·.1)).foldl (fun catalog record => catalog.insert record.1 record.2)
        catalog := by
  induction trees generalizing catalog with
  | nil =>
      cases h
      simp
  | cons tree trees ih =>
      obtain ⟨⟨catalog₁, fields₁⟩, hfirst, hrest⟩ := callAll_visitsOf_cons_eq_ok.mp h
      obtain ⟨rfl, hcatalog⟩ := visitPrimary_package hfirst
      obtain ⟨rfl, hall, rfl⟩ := ih hrest
      rw [List.forall_mem_cons, List.filter_cons]
      by_cases hpackage : tree.node.is common "package"
      · rw [if_pos hpackage] at hcatalog ⊢
        obtain ⟨record, hrecord, rfl⟩ := hcatalog
        refine ⟨rfl, ⟨fun _ => by rw [hrecord]; rfl, hall⟩, ?_⟩
        rw [List.filterMap_cons_some hrecord, List.filter_cons]
        split_ifs <;> rfl
      · rw [if_neg hpackage] at hcatalog ⊢
        obtain rfl := hcatalog
        exact ⟨rfl, ⟨fun h => absurd h hpackage, hall⟩, rfl⟩

/-- **The catalog of a repository** is the one of the packages that are wanted, and every
package has its record. -/
theorem primaryVendors_eq_ok (h : primaryVendors xml wanted = .ok catalog) :
    ∃ root, readTree xml common "metadata" = .ok root ∧
      catalog = catalogOf ((candidateRecords root).filter (wanted.contains ·.1)) ∧
      ∀ package ∈ root.named common "package", (candidateRecord package).isSome := by
  obtain ⟨⟨catalog', fields⟩, hwalk, rfl⟩ := map_eq_ok.mp h
  obtain ⟨root, hroot, hcalls⟩ := walk_eq_ok (textBlind_visitPrimary wanted) hwalk
  obtain ⟨⟨catalog₁, fields₁⟩, hbelow, hclose⟩ := callAll_visits_eq_ok.mp hcalls
  cases hclose
  obtain ⟨-, hall, rfl⟩ := visitPrimary_packages hbelow
  refine ⟨root, hroot, rfl, fun package hpackage => ?_⟩
  obtain ⟨hmem, his⟩ := List.mem_filter.mp hpackage
  exact hall package hmem his

/-- What is wanted is looked up among all packages. -/
theorem oneRecord_filter {records : List (Identity × String)} {identity : Identity} {vendor : String}
    (hwanted : identity ∈ wanted) :
    OneRecord (records.filter (wanted.contains ·.1)) identity vendor ↔
      OneRecord records identity vendor := by
  have hsame : (records.filter (wanted.contains ·.1)).filter (·.1 = identity) =
      records.filter (·.1 = identity) := by
    rw [List.filter_filter]
    refine List.filter_congr fun record _ => ?_
    by_cases h : record.1 = identity
    · simp [h, hwanted]
    · simp [h]
  rw [OneRecord, OneRecord, hsame]

end

end LyraUpgrade
