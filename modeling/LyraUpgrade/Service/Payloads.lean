import LyraUpgrade.Core.MigrationPlan

/-!
# Payloads in the cache directory

`verify_payloads` and `collect` of `service/src/migration.rs`: the directory tree of the
package cache is walked in the order the directories are listed, and the digest of each
`.rpm` file is struck off the set of digests that are pending.  The tree is the one that is
read; SHA-256 is a parameter.

What the walk accepts is said without it: directories and regular files only, no directory
more than eight levels down (`Plain`), and the digests of the `.rpm` files are the pending
ones, each once.  No order of the walk is in this, which is why the answer does not depend
on one.
-/

namespace LyraUpgrade

/-! ## The walk -/

/-- What is found under a name, without following links.  What is neither a file nor a
directory is a link, a device, a pipe or a socket. -/
inductive CacheEntry
  | file (content : List UInt8)
  | directory (entries : List (List UInt8 × CacheEntry))
  | other

namespace CacheEntry

def isDirectory : CacheEntry → Bool
  | .directory _ => true
  | _ => false

def isFile : CacheEntry → Bool
  | .file _ => true
  | _ => false

def content : CacheEntry → List UInt8
  | .file content => content
  | _ => []

end CacheEntry

inductive PayloadError
  | migration (error : MigrationError)
  | notADirectory
  | other (text : String)
  deriving DecidableEq, Repr

/-- `Path::extension` of a file name: what follows the last dot, if something precedes it. -/
def extension (name : List UInt8) : Option (List UInt8) :=
  if (name.reverse.dropWhile (· ≠ 46)).length ≤ 1 then none
  else some (name.reverse.takeWhile (· ≠ 46)).reverse

/-- The extension is `rpm`. -/
def isRpm (name : List UInt8) : Bool := extension name = some [114, 112, 109]

mutual

/-- `collect`: the contents of the `.rpm` files, after those that are already found. -/
def collect (files : List (List UInt8)) (depth : ℕ) (entry : CacheEntry) :
    Except PayloadError (List (List UInt8)) :=
  match entry with
  | .other => .error (.other "invalid cache directory")
  | .file _ => .error .notADirectory
  | .directory entries =>
      if 8 < depth then .error (.other "invalid cache directory")
      else collectEntries files depth entries

/-- The loop over the entries of a directory. -/
def collectEntries (files : List (List UInt8)) (depth : ℕ) :
    List (List UInt8 × CacheEntry) → Except PayloadError (List (List UInt8))
  | [] => .ok files
  | (name, entry) :: entries =>
      if entry.isDirectory then
        match collect files (depth + 1) entry with
        | .error e => .error e
        | .ok files => collectEntries files depth entries
      else if !entry.isFile then .error (.other "nonregular cache entry")
      else if isRpm name then
        if 64 ≤ files.length then .error (.other "too many RPMs")
        else collectEntries (files ++ [entry.content]) depth entries
      else collectEntries files depth entries

end

/-- Each file strikes its digest off the remaining ones. -/
def consumePayloads (sha256 : List UInt8 → String) :
    List (List UInt8) → List String → Except PayloadError (List String)
  | [], remaining => .ok remaining
  | file :: files, remaining =>
      if sha256 file ∈ remaining then
        consumePayloads sha256 files (remaining.filter (· ≠ sha256 file))
      else .error (.other "unexpected or altered RPM payload")

/-- `verify_payloads` on the tree below the cache directory. -/
def verifyPayloadTree (sha256 : List UInt8 → String) (manifest : ReleaseManifest)
    (installed : List InstalledPackage) (root : CacheEntry) : Except PayloadError Unit :=
  if manifest.packageMigration.isNone then .ok ()
  else match pendingMigration manifest installed with
    | .error e => .error (.migration e)
    | .ok pending =>
        let remaining := pending.map (·.sha256)
        if !decide remaining.Nodup || remaining.isEmpty then .error (.other "invalid payload set")
        else match collect [] 0 root with
          | .error e => .error e
          | .ok files =>
              match consumePayloads sha256 files remaining with
              | .error e => .error e
              | .ok [] => .ok ()
              | .ok _ => .error (.other "missing RPM payload")

/-! ## What is in a tree -/

namespace CacheEntry

mutual

/-- The contents of the `.rpm` files below a directory. -/
def rpms : CacheEntry → List (List UInt8)
  | .directory entries => rpmsOf entries
  | _ => []

def rpmsOf : List (List UInt8 × CacheEntry) → List (List UInt8)
  | [] => []
  | (name, entry) :: entries =>
      (if entry.isFile && isRpm name then [entry.content] else rpms entry) ++ rpmsOf entries

end

/-- The entry lies so many levels below the root. -/
inductive Below : CacheEntry → ℕ → CacheEntry → Prop
  | child {entries : List (List UInt8 × CacheEntry)} {name : List UInt8} {entry : CacheEntry}
      (hmem : (name, entry) ∈ entries) : Below (.directory entries) 1 entry
  | deeper {entries : List (List UInt8 × CacheEntry)} {name : List UInt8}
      {directory entry : CacheEntry} {depth : ℕ} (hmem : (name, directory) ∈ entries)
      (hbelow : Below directory depth entry) : Below (.directory entries) (depth + 1) entry

/-- A tree of directories and regular files, no directory more than so many levels down. -/
structure Plain (levels : ℕ) (root : CacheEntry) : Prop where
  isDirectory : root.isDirectory
  entries : ∀ depth entry, Below root depth entry →
    entry.isFile ∨ (entry.isDirectory ∧ depth ≤ levels)

mutual

/-- `Plain`, for an entry that lies so many levels down, as a walk decides it. -/
def isPlain (levels depth : ℕ) : CacheEntry → Bool
  | .directory entries => depth ≤ levels && arePlain levels depth entries
  | _ => false

def arePlain (levels depth : ℕ) : List (List UInt8 × CacheEntry) → Bool
  | [] => true
  | (_, entry) :: entries =>
      (entry.isFile || isPlain levels (depth + 1) entry) && arePlain levels depth entries

end

variable {levels depth : ℕ} {entry : CacheEntry} {entries : List (List UInt8 × CacheEntry)}

theorem arePlain_iff : arePlain levels depth entries ↔
    ∀ child ∈ entries, child.2.isFile ∨ isPlain levels (depth + 1) child.2 := by
  induction entries with
  | nil => simp [arePlain]
  | cons child entries ih =>
      obtain ⟨name, entry⟩ := child
      rw [arePlain, Bool.and_eq_true, ih]
      simp

theorem isDirectory_of_below {d : ℕ} {e : CacheEntry} (h : Below entry d e) :
    entry.isDirectory := by
  cases h <;> rfl

/-- The walk only accepts what is plain: by induction on the levels an entry is down. -/
theorem below_of_isPlain {d : ℕ} {e : CacheEntry} (h : isPlain levels depth entry)
    (hbelow : Below entry d e) : e.isFile ∨ (e.isDirectory ∧ depth + d ≤ levels) := by
  induction hbelow generalizing depth with
  | @child entries name e hmem =>
      simp only [isPlain, Bool.and_eq_true, arePlain_iff] at h
      rcases h.2 _ hmem with hfile | hplain
      · exact .inl hfile
      · cases e <;> simp_all [isPlain, isDirectory]
  | @deeper entries name directory e d hmem hbelow ih =>
      simp only [isPlain, Bool.and_eq_true, arePlain_iff] at h
      rcases h.2 _ hmem with hfile | hplain
      · -- nothing lies below a file
        have hdirectory := isDirectory_of_below hbelow
        cases directory <;> simp_all [isFile, isDirectory]
      · rw [show depth + (d + 1) = depth + 1 + d by omega]
        exact ih hplain

mutual

/-- And it accepts everything that is: by induction on the tree. -/
theorem isPlain_of_below (levels depth : ℕ) (entry : CacheEntry)
    (hdirectory : entry.isDirectory) (hdepth : depth ≤ levels)
    (hall : ∀ d e, Below entry d e → e.isFile ∨ (e.isDirectory ∧ depth + d ≤ levels)) :
    isPlain levels depth entry := by
  match entry with
  | .directory entries =>
      simp only [isPlain, Bool.and_eq_true, decide_eq_true_eq]
      refine ⟨hdepth, arePlain_of_below levels depth entries fun name e hmem => ?_⟩
      refine ⟨hall 1 e (.child hmem), fun d e' hbelow => ?_⟩
      rw [show depth + 1 + d = depth + (d + 1) by omega]
      exact hall (d + 1) e' (.deeper hmem hbelow)

theorem arePlain_of_below (levels depth : ℕ) (entries : List (List UInt8 × CacheEntry))
    (hall : ∀ name e, (name, e) ∈ entries →
      (e.isFile ∨ (e.isDirectory ∧ depth + 1 ≤ levels)) ∧
      ∀ d e', Below e d e' → e'.isFile ∨ (e'.isDirectory ∧ depth + 1 + d ≤ levels)) :
    arePlain levels depth entries := by
  match entries with
  | [] => rfl
  | (name, e) :: entries =>
      rw [arePlain, Bool.and_eq_true, Bool.or_eq_true]
      obtain ⟨hkind, hbelow⟩ := hall name e List.mem_cons_self
      refine ⟨?_, arePlain_of_below levels depth entries fun name' e' hmem =>
        hall name' e' (List.mem_cons_of_mem _ hmem)⟩
      rcases hkind with hfile | ⟨hdirectory, hdepth⟩
      · exact .inl hfile
      · exact .inr (isPlain_of_below levels (depth + 1) e hdirectory hdepth hbelow)

end

theorem isPlain_iff : isPlain levels 0 entry ↔ Plain levels entry := by
  constructor
  · intro h
    refine ⟨by cases entry <;> simp_all [isPlain, isDirectory], fun d e hbelow => ?_⟩
    simpa using below_of_isPlain h hbelow
  · intro h
    refine isPlain_of_below levels 0 entry h.isDirectory (Nat.zero_le _) fun d e hbelow => ?_
    simpa using h.entries d e hbelow

end CacheEntry

/-! ## What the walk finds -/

open CacheEntry

mutual

/-- **The walk collects the `.rpm` files** of a plain tree, up to sixty-four, and fails on
any other. -/
theorem collect_eq_ok (files files' : List (List UInt8)) (depth : ℕ) (entry : CacheEntry)
    (hfiles : files.length ≤ 64) : collect files depth entry = .ok files' ↔
      isPlain 8 depth entry ∧ files' = files ++ entry.rpms ∧ files'.length ≤ 64 := by
  match entry with
  | .other => simp [collect, isPlain]
  | .file _ => simp [collect, isPlain]
  | .directory entries =>
      rw [collect, isPlain, rpms]
      split_ifs with hdeep
      · simp [Nat.not_le.mpr hdeep]
      · rw [collectEntries_eq_ok files files' depth entries hfiles]
        simp [Nat.not_lt.mp hdeep]

theorem collectEntries_eq_ok (files files' : List (List UInt8)) (depth : ℕ)
    (entries : List (List UInt8 × CacheEntry)) (hfiles : files.length ≤ 64) :
    collectEntries files depth entries = .ok files' ↔
      arePlain 8 depth entries ∧ files' = files ++ rpmsOf entries ∧ files'.length ≤ 64 := by
  match entries with
  | [] =>
      simp [collectEntries, arePlain, rpmsOf, eq_comm]
      rintro rfl
      exact hfiles
  | (name, entry) :: entries =>
      have hentry := fun found => collect_eq_ok files found (depth + 1) entry hfiles
      have hrest := fun found => collectEntries_eq_ok found files' depth entries
      rw [collectEntries, arePlain, rpmsOf]
      cases entry with
      | other => simp [isDirectory, isFile, isPlain]
      | file content =>
          simp only [isDirectory, isFile, CacheEntry.content, rpms, isPlain, Bool.not_true,
            Bool.false_eq_true, if_false, Bool.true_and, Bool.true_or]
          by_cases hname : isRpm name
          · rw [if_pos hname, if_pos hname]
            split_ifs with hfull
            · -- the sixty-fifth file
              refine iff_of_false (by simp) ?_
              rintro ⟨-, rfl, hlength⟩
              simp at hlength
              omega
            · rw [hrest _ (by simp; omega), List.append_assoc]
          · rw [if_neg hname, if_neg hname, hrest files hfiles, List.nil_append]
      | directory children =>
          simp only [isDirectory, isFile, if_true, Bool.false_and, Bool.false_eq_true, if_false,
            Bool.false_or, Bool.and_eq_true]
          cases hfound : collect files (depth + 1) (.directory children) with
          | error e =>
              refine iff_of_false (by simp) ?_
              rintro ⟨⟨hplain, -⟩, rfl, hlength⟩
              have hok := (hentry (files ++ rpms (.directory children))).mpr
                ⟨hplain, rfl, by simp at hlength ⊢; omega⟩
              rw [hfound] at hok
              cases hok
          | ok found =>
              obtain ⟨hplain, rfl, hlength⟩ := (hentry found).mp hfound
              rw [hrest _ hlength, List.append_assoc]
              simp [hplain]

end

/-! ## The set of digests -/

section

variable {sha256 : List UInt8 → String} {files : List (List UInt8)} {remaining : List String}

/-- **Every digest is struck off once.**  Nothing remains exactly when the files have the
digests of the set, each once. -/
theorem consumePayloads_eq_nil (hremaining : remaining.Nodup) :
    consumePayloads sha256 files remaining = .ok [] ↔ (files.map sha256).Perm remaining := by
  induction files generalizing remaining with
  | nil => simp [consumePayloads, List.nil_perm]
  | cons file files ih =>
      rw [consumePayloads, List.map_cons, List.cons_perm_iff_perm_erase]
      have herase : remaining.filter (· ≠ sha256 file) = remaining.erase (sha256 file) := by
        rw [hremaining.erase_eq_filter]
        exact List.filter_congr fun x _ => by rw [Bool.eq_iff_iff]; simp
      split_ifs with hmem
      · rw [ih (hremaining.filter _), herase, and_iff_right hmem]
      · simp [hmem]

end

/-! ## The answer -/

section

variable {sha256 : List UInt8 → String} {manifest : ReleaseManifest} {root root' : CacheEntry}
variable {packages pending : List PackageMigration} {installed : List InstalledPackage}

/-- A valid migration has at most sixty-four packages. -/
theorem length_pending_le (hpackages : manifest.packageMigration = some packages)
    (hpending : pendingMigration manifest installed = .ok pending) : pending.length ≤ 64 := by
  have hvalid := ((pendingMigration_eq_ok hpackages).mp hpending).1
  have hlength : packages.length ≤ 64 := by
    simp only [validateMigration, hpackages] at hvalid
    split_ifs at hvalid with hinvalid
    simp only [Bool.or_eq_true, not_or, decide_eq_true_eq] at hinvalid
    omega
  exact (pending_of_ok hpackages hpending).1.length_le.trans hlength

/-- What the walk and the set together accept: a plain tree, whose digests are those of the
pending packages. -/
theorem verifyPayloadTree_eq_ok (hpackages : manifest.packageMigration = some packages) :
    verifyPayloadTree sha256 manifest installed root = .ok () ↔
      ∃ pending, pendingMigration manifest installed = .ok pending ∧ pending ≠ [] ∧
        (pending.map (·.sha256)).Nodup ∧ root.Plain 8 ∧
        (root.rpms.map sha256).Perm (pending.map (·.sha256)) := by
  have hnone : ¬ manifest.packageMigration.isNone := by rw [hpackages]; exact Bool.false_ne_true
  rw [verifyPayloadTree, if_neg hnone]
  cases hpending : pendingMigration manifest installed with
  | error e => simp
  | ok pending =>
      have hcount := length_pending_le hpackages hpending
      simp only [Except.ok.injEq, exists_eq_left']
      by_cases hset : (pending.map (·.sha256)).Nodup ∧ pending ≠ []
      · obtain ⟨hnodup, hnonempty⟩ := hset
        rw [if_neg (by simp [hnodup, hnonempty])]
        have hwalk := fun found => collect_eq_ok [] found 0 root (by simp)
        cases hfound : collect [] 0 root with
        | error e =>
            refine iff_of_false (by simp) ?_
            rintro ⟨-, -, hplain, hperm⟩
            have hlength := hperm.length_eq
            rw [List.length_map, List.length_map] at hlength
            have hok := (hwalk root.rpms).mpr ⟨isPlain_iff.mpr hplain, rfl, by omega⟩
            rw [hfound] at hok
            cases hok
        | ok found =>
            obtain ⟨hplain, rfl, -⟩ := (hwalk found).mp hfound
            have hperm := @consumePayloads_eq_nil sha256 root.rpms _ hnodup
            rw [List.nil_append, ← hperm]
            simp only [hnodup, isPlain_iff.mp hplain, ne_eq, hnonempty, not_false_eq_true, true_and]
            cases hremaining : consumePayloads sha256 root.rpms (pending.map (·.sha256)) with
            | error e => simp
            | ok remaining => cases remaining <;> simp
      · refine iff_of_false ?_ fun h => hset ⟨h.2.1, h.1⟩
        rw [if_pos (by simp; tauto)]
        simp

/-- The check on digests that the executors are described with is this one, on the digests of
the tree. -/
theorem verifyPayloadTree_iff : verifyPayloadTree sha256 manifest installed root = .ok () ↔
    manifest.packageMigration.isNone ∨
      (root.Plain 8 ∧ verifyPayloads manifest installed (root.rpms.map sha256)) := by
  cases hpackages : manifest.packageMigration with
  | none => simp [verifyPayloadTree, hpackages]
  | some packages =>
      rw [verifyPayloadTree_eq_ok hpackages]
      cases hpending : pendingMigration manifest installed with
      | error e => simp [verifyPayloads, hpackages, hpending]
      | ok pending =>
          simp [verifyPayloads, hpackages, hpending]
          tauto

/-- The entries of one directory of the tree are listed in another order. -/
inductive Relisted : CacheEntry → CacheEntry → Prop
  | here {entries entries' : List (List UInt8 × CacheEntry)} (h : entries.Perm entries') :
      Relisted (.directory entries) (.directory entries')
  | inside {before after : List (List UInt8 × CacheEntry)} {name : List UInt8}
      {entry entry' : CacheEntry} (h : Relisted entry entry') :
      Relisted (.directory (before ++ (name, entry) :: after))
        (.directory (before ++ (name, entry') :: after))

theorem rpmsOf_eq (entries : List (List UInt8 × CacheEntry)) : rpmsOf entries =
    entries.flatMap fun child =>
      if child.2.isFile && isRpm child.1 then [child.2.content] else child.2.rpms := by
  induction entries with
  | nil => rfl
  | cons child entries ih => rw [rpmsOf, ih, List.flatMap_cons]

/-- What kind a directory is, does not depend on the order of its entries. -/
theorem Relisted.isDirectory (h : Relisted root root') : root.isDirectory ∧ root'.isDirectory := by
  cases h <;> exact ⟨rfl, rfl⟩

theorem Relisted.isPlain (h : Relisted root root') (levels depth : ℕ) :
    root.isPlain levels depth = root'.isPlain levels depth := by
  induction h generalizing depth with
  | here h =>
      rw [Bool.eq_iff_iff]
      simp only [CacheEntry.isPlain, Bool.and_eq_true, arePlain_iff, h.mem_iff]
  | inside h ih =>
      have hkind := h.isDirectory
      rename_i entry entry'
      have hfile : entry.isFile = entry'.isFile := by
        cases entry <;> cases entry' <;> simp_all [CacheEntry.isDirectory, isFile]
      rw [Bool.eq_iff_iff]
      simp only [CacheEntry.isPlain, Bool.and_eq_true, arePlain_iff,
        List.forall_mem_append, List.forall_mem_cons, hfile, ih]

theorem Relisted.rpms (h : Relisted root root') : root.rpms.Perm root'.rpms := by
  induction h with
  | here h =>
      rw [CacheEntry.rpms, CacheEntry.rpms, rpmsOf_eq, rpmsOf_eq]
      exact h.flatMap_right _
  | inside h ih =>
      have hkind := h.isDirectory
      rename_i entry entry'
      have hfile : entry.isFile = false ∧ entry'.isFile = false := by
        cases entry <;> cases entry' <;> simp_all [CacheEntry.isDirectory, isFile]
      rw [CacheEntry.rpms, CacheEntry.rpms, rpmsOf_eq, rpmsOf_eq, List.flatMap_append,
        List.flatMap_append, List.flatMap_cons, List.flatMap_cons]
      simp only [hfile, Bool.false_and, Bool.false_eq_true, if_false]
      exact (ih.append_right _).append_left _

/-- **Payloads are exactly the signed set.**  For a manifest with a migration the check
succeeds exactly when something is pending, with distinct digests, the tree consists of
directories, at most eight levels down, and regular files, and the digests of its `.rpm` files
are the pending ones, each once.  The order in which directories are listed is of no concern,
nor is where in a plain tree a file lies. -/
theorem payloads_exact (hpackages : manifest.packageMigration = some packages)
    (sha256 : List UInt8 → String) (installed : List InstalledPackage) (root : CacheEntry) :
    (verifyPayloadTree sha256 manifest installed root = .ok () ↔
      ∃ pending, pendingMigration manifest installed = .ok pending ∧ pending ≠ [] ∧
        (pending.map (·.sha256)).Nodup ∧ root.Plain 8 ∧
        (root.rpms.map sha256).Perm (pending.map (·.sha256))) ∧
    (∀ root', Relisted root root' →
      (verifyPayloadTree sha256 manifest installed root' = .ok () ↔
        verifyPayloadTree sha256 manifest installed root = .ok ())) ∧
    (∀ root', root.Plain 8 → root'.Plain 8 → root'.rpms.Perm root.rpms →
      (verifyPayloadTree sha256 manifest installed root' = .ok () ↔
        verifyPayloadTree sha256 manifest installed root = .ok ())) := by
  have hcongr : ∀ root', (root'.Plain 8 ↔ root.Plain 8) → root'.rpms.Perm root.rpms →
      (verifyPayloadTree sha256 manifest installed root' = .ok () ↔
        verifyPayloadTree sha256 manifest installed root = .ok ()) := by
    intro root' hplain hrpms
    have hdigests : ∀ digests, (root'.rpms.map sha256).Perm digests ↔
        (root.rpms.map sha256).Perm digests := fun digests =>
      ⟨(hrpms.map sha256).symm.trans, (hrpms.map sha256).trans⟩
    rw [verifyPayloadTree_eq_ok hpackages, verifyPayloadTree_eq_ok hpackages, hplain]
    simp only [hdigests]
  refine ⟨verifyPayloadTree_eq_ok hpackages, fun root' h => hcongr root' ?_ h.rpms.symm,
    fun root' hroot hroot' => hcongr root' (iff_of_true hroot' hroot)⟩
  rw [← isPlain_iff, ← isPlain_iff, h.isPlain]

end

namespace Sample

/-- The file of the first package, in a directory of its own beside the metadata. -/
def packageCache : CacheEntry := .directory
  [("repomd.xml".toUTF8.toList, .file [60]),
   ("noarch".toUTF8.toList, .directory [("nano.rpm".toUTF8.toList, .file [1, 2, 3])])]

/-- The digest of the first package. -/
def nanoDigest : List UInt8 → String := fun content =>
  if content = [1, 2, 3] then
    "0000000000000000000000000000000000000000000000000000000000000001"
  else ""

end Sample

theorem payloads_exact_sample : ∃ pending,
    pendingMigration Sample.maintenance Sample.untranslated = .ok pending ∧ pending ≠ [] ∧
      (pending.map (·.sha256)).Nodup ∧ Sample.packageCache.Plain 8 ∧
      (Sample.packageCache.rpms.map Sample.nanoDigest).Perm (pending.map (·.sha256)) :=
  (payloads_exact (show Sample.maintenance.packageMigration = some Sample.migratedPackages from rfl)
    Sample.nanoDigest Sample.untranslated Sample.packageCache).1.mp (by decide +kernel)

end LyraUpgrade
