import LyraUpgrade.Core.TextLines
import LyraUpgrade.System.Effect

/-!
# Keys of repositories

`fetch_repository_key` and `parse_fingerprints` of `service/src/manifest_fetch.rs`: the file
with the key of a repository is downloaded, and `gpg` lists the keys in it, one record on a
line, in fields between colons.  Each key is a block of records: the primary key, its
fingerprint, and then user names and subkeys, these with fingerprints of their own.

## Main definitions

* `parseFingerprints` — the scan of the listing, with one bit of state.
* `KeyBlock`, `keyListing` — the listing of `gpg`, as blocks and as text.

## Main results

* `parseFingerprints_keyListing` — the scan returns the fingerprints of the primary keys.
* `singleKey_exact` — the check passes exactly on a file with the one key declared.
-/

namespace LyraUpgrade

/-! ## The scan -/

/-- One line.  The bit tells whether the primary key that was read last has no fingerprint
yet. -/
def fingerprintStep (state : Bool × List String) (line : List Char) : Bool × List String :=
  let fields := line.splitOn ':'
  let kind := fields.headD []
  if kind = "pub".toList then (true, state.2)
  else if kind = "sub".toList || kind = "sec".toList || kind = "ssb".toList then (false, state.2)
  else if kind = "fpr".toList && state.1 then
    match fields[9]? with
    | some fingerprint => (false, state.2 ++ [String.ofList fingerprint])
    | none => state
  else state

/-- `parse_fingerprints`. -/
def parseFingerprints (output : List Char) : List String :=
  ((lines output).foldl fingerprintStep (false, [])).2

/-- `key_fingerprints`: `gpg` may fail to start, and has an exit status and an output. -/
def keyFingerprints : Io (Bool × List Char) → Except FetchError (List String)
  | .error _ => .error .io
  | .ok (false, _) => .error .repositoryKey
  | .ok (true, output) => .ok (parseFingerprints output)

def maxManifestBytes : ℕ := 1024 * 1024

/-- `fetch_repository_key`, for what the download, the size of the file and `gpg` turn out to
be. -/
def fetchRepositoryKey (signingKeyFingerprint : String) (downloaded : Bool) (size : Io ℕ)
    (gpg : Io (Bool × List Char)) : Except FetchError Unit :=
  if !downloaded then .error .repositoryKey
  else match size with
    | .error _ => .error .io
    | .ok size =>
        if maxManifestBytes < size then .error .tooLarge
        else match keyFingerprints gpg with
          | .error e => .error e
          | .ok fingerprints =>
              if fingerprints ≠ [signingKeyFingerprint] then .error .repositoryKeyMismatch
              else .ok ()

/-! ## The listing -/

/-- The text of a field: colons and line ends are escaped. -/
structure FieldText where
  text : List Char
  plain : ∀ c ∈ text, c ≠ ':' ∧ c ≠ '\n' ∧ c ≠ '\r'

/-- A record of a kind, with the fields behind the kind. -/
def recordLine (kind : String) (fields : List FieldText) : List Char :=
  kind.toList ++ fields.flatMap fun field => ':' :: field.text

/-- A fingerprint stands in the tenth field. -/
structure FingerprintRecord where
  before : List FieldText
  fingerprint : FieldText
  after : List FieldText
  place : before.length = 8

namespace FingerprintRecord

def line (self : FingerprintRecord) : List Char :=
  recordLine "fpr" (self.before ++ self.fingerprint :: self.after)

def value (self : FingerprintRecord) : String := String.ofList self.fingerprint.text

end FingerprintRecord

/-- What belongs to a primary key. -/
inductive KeyItem
  | uid (fields : List FieldText)
  | sub (fields : List FieldText) (fpr : FingerprintRecord)

def KeyItem.lines : KeyItem → List (List Char)
  | uid fields => [recordLine "uid" fields]
  | sub fields fpr => [recordLine "sub" fields, fpr.line]

/-- A key: its record, its fingerprint, and what belongs to it. -/
structure KeyBlock where
  pub : List FieldText
  fpr : FingerprintRecord
  items : List KeyItem

def KeyBlock.lines (self : KeyBlock) : List (List Char) :=
  recordLine "pub" self.pub :: self.fpr.line :: self.items.flatMap KeyItem.lines

/-- The listing of a file. -/
def keyListing (blocks : List KeyBlock) : List Char := unlines (blocks.flatMap KeyBlock.lines)

/-! ## Records as lines -/

section

variable {kind : String} {fields : List FieldText}

/-- The kinds of records in a block. -/
def recordKinds : List String := ["pub", "fpr", "uid", "sub"]

theorem plain_of_recordKinds (h : kind ∈ recordKinds) :
    ∀ c ∈ kind.toList, c ≠ ':' ∧ c ≠ '\n' ∧ c ≠ '\r' := by
  have hkinds : ∀ kind ∈ recordKinds, ∀ c ∈ kind.toList, c ≠ ':' ∧ c ≠ '\n' ∧ c ≠ '\r' := by
    decide +kernel
  exact hkinds kind h

/-- The fields of a line. -/
theorem splitOn_recordLine (kind : String) (h : kind ∈ recordKinds) :
    (recordLine kind fields).splitOn ':' = kind.toList :: fields.map FieldText.text := by
  have hfrom : ∀ cs : List Char, ':' ∉ cs →
      (cs ++ fields.flatMap fun field => ':' :: field.text).splitOn ':' =
        cs :: fields.map FieldText.text := by
    induction fields with
    | nil =>
        intro cs hcs
        rw [List.flatMap_nil, List.append_nil, List.splitOn_eq_singleton hcs]
        rfl
    | cons field fields ih =>
        intro cs hcs
        rw [List.flatMap_cons, List.cons_append, List.splitOn_append_cons_self_of_not_mem hcs,
          ih field.text fun hmem => (field.plain ':' hmem).1 rfl]
        rfl
  exact hfrom kind.toList fun hmem => (plain_of_recordKinds h ':' hmem).1 rfl

/-- A record is one line. -/
theorem plain_recordLine (h : kind ∈ recordKinds) :
    ∀ c ∈ recordLine kind fields, c ≠ '\n' ∧ c ≠ '\r' := by
  intro c hc
  rcases List.mem_append.mp hc with hc | hc
  · exact (plain_of_recordKinds h c hc).2
  · obtain ⟨field, -, hc⟩ := List.mem_flatMap.mp hc
    rcases List.mem_cons.mp hc with rfl | hc
    · decide
    · exact (field.plain c hc).2

theorem plain_lines {blocks : List KeyBlock} :
    ∀ line ∈ blocks.flatMap KeyBlock.lines, ∀ c ∈ line, c ≠ '\n' ∧ c ≠ '\r' := by
  intro line hline
  obtain ⟨block, -, hline⟩ := List.mem_flatMap.mp hline
  rcases List.mem_cons.mp hline with rfl | hline
  · exact plain_recordLine (by decide)
  rcases List.mem_cons.mp hline with rfl | hline
  · exact plain_recordLine (by decide)
  obtain ⟨item, -, hline⟩ := List.mem_flatMap.mp hline
  cases item with
  | uid fields =>
      rw [List.mem_singleton.mp hline]
      exact plain_recordLine (by decide)
  | sub fields fpr =>
      rcases List.mem_pair.mp hline with rfl | rfl
      · exact plain_recordLine (by decide)
      · exact plain_recordLine (by decide)

/-- The listing is read line by line. -/
theorem lines_keyListing (blocks : List KeyBlock) :
    lines (keyListing blocks) = blocks.flatMap KeyBlock.lines := by
  rw [keyListing, lines_unlines fun line hline hfeed => (plain_lines line hline _ hfeed).1 rfl]
  refine (List.map_congr_left fun line hline => ?_).trans (List.map_id _)
  refine chomp_of_getLast? fun hlast => ?_
  exact (plain_lines line hline '\r' (List.mem_of_getLast? hlast)).2 rfl

/-! ## One step for each record -/

variable {primary : Bool} {found : List String}

theorem fingerprintStep_pub :
    fingerprintStep (primary, found) (recordLine "pub" fields) = (true, found) := by
  simp only [fingerprintStep, splitOn_recordLine "pub" (by decide), List.headD_cons, if_true]

theorem fingerprintStep_sub :
    fingerprintStep (primary, found) (recordLine "sub" fields) = (false, found) := by
  simp only [fingerprintStep, splitOn_recordLine "sub" (by decide), List.headD_cons]
  rw [if_neg (by decide +kernel), if_pos (by decide +kernel)]

/-- A user name changes nothing. -/
theorem fingerprintStep_uid :
    fingerprintStep (primary, found) (recordLine "uid" fields) = (primary, found) := by
  have hkind : ("uid".toList = "fpr".toList) = False := by simp
  simp only [fingerprintStep, splitOn_recordLine "uid" (by decide), List.headD_cons]
  rw [if_neg (by decide +kernel), if_neg (by decide +kernel)]
  simp only [hkind, decide_false, Bool.false_and, Bool.false_eq_true, if_false]

/-- A fingerprint counts for a primary key. -/
theorem fingerprintStep_fpr (fpr : FingerprintRecord) :
    fingerprintStep (primary, found) fpr.line =
      (false, if primary then found ++ [fpr.value] else found) := by
  have hfield : ("fpr".toList :: (fpr.before ++ fpr.fingerprint :: fpr.after).map
      FieldText.text)[9]? = some fpr.fingerprint.text := by
    have hlength : (fpr.before.map FieldText.text).length = 8 := by
      rw [List.length_map, fpr.place]
    rw [List.getElem?_cons_succ, List.map_append, List.getElem?_append_right (by omega), hlength]
    rfl
  simp only [FingerprintRecord.line, fingerprintStep,
    splitOn_recordLine "fpr" (by decide), List.headD_cons, hfield]
  rw [if_neg (by decide +kernel), if_neg (by decide +kernel)]
  cases primary <;> rfl

/-! ## Blocks -/

/-- What belongs to a key adds no fingerprint. -/
theorem foldl_items (items : List KeyItem) :
    (items.flatMap KeyItem.lines).foldl fingerprintStep (false, found) = (false, found) := by
  induction items with
  | nil => rfl
  | cons item items ih =>
      rw [List.flatMap_cons, List.foldl_append]
      cases item with
      | uid fields =>
          rw [KeyItem.lines, List.foldl_cons, List.foldl_nil, fingerprintStep_uid]
          exact ih
      | sub fields fpr =>
          -- The record of the subkey clears the bit before its fingerprint is read.
          rw [KeyItem.lines, List.foldl_cons, List.foldl_cons, List.foldl_nil, fingerprintStep_sub,
            fingerprintStep_fpr]
          exact ih

theorem foldl_block (block : KeyBlock) :
    block.lines.foldl fingerprintStep (primary, found) = (false, found ++ [block.fpr.value]) := by
  rw [KeyBlock.lines, List.foldl_cons, List.foldl_cons, fingerprintStep_pub, fingerprintStep_fpr,
    if_pos rfl, foldl_items]

/-- **The scan of a listing** returns the fingerprints of the primary keys, in order. -/
theorem parseFingerprints_keyListing (blocks : List KeyBlock) :
    parseFingerprints (keyListing blocks) = blocks.map fun block => block.fpr.value := by
  have hfrom : ∀ found, (blocks.flatMap KeyBlock.lines).foldl fingerprintStep (false, found) =
      (false, found ++ blocks.map fun block => block.fpr.value) := by
    induction blocks with
    | nil => simp
    | cons block blocks ih =>
        intro found
        rw [List.flatMap_cons, List.foldl_append, foldl_block, ih, List.append_assoc]
        rfl
  rw [parseFingerprints, lines_keyListing, hfrom]
  rfl

end

/-! ## The check of a key file -/

theorem fetchRepositoryKey_eq_ok {fingerprint : String} {downloaded : Bool} {size : Io ℕ}
    {gpg : Io (Bool × List Char)} :
    fetchRepositoryKey fingerprint downloaded size gpg = .ok () ↔
      downloaded ∧ (∃ bytes, size = .ok bytes ∧ bytes ≤ maxManifestBytes) ∧
        ∃ output, gpg = .ok (true, output) ∧ parseFingerprints output = [fingerprint] := by
  unfold fetchRepositoryKey
  constructor
  · intro h
    split_ifs at h with hdownloaded
    split at h
    · cases h
    · next bytes =>
        split_ifs at h with hsize
        split at h
        · cases h
        · next fingerprints hlisted =>
            split_ifs at h with hfound
            rcases gpg with e | ⟨success | success, output⟩
            · cases hlisted
            · cases hlisted
            · cases hlisted
              exact ⟨by simpa using hdownloaded, ⟨bytes, rfl, Nat.not_lt.mp hsize⟩, output, rfl,
                not_not.mp hfound⟩
  · rintro ⟨rfl, ⟨bytes, rfl, hsize⟩, output, rfl, hfound⟩
    simp only [Bool.not_true, Bool.false_eq_true, if_false, Nat.not_lt.mpr hsize, keyFingerprints,
      hfound, ne_eq, not_true_eq_false]

/-- **Only single-key files pass.**  On the listing of any blocks, the scan returns the primary
fingerprints in order, and the file is accepted for a declared fingerprint if and only if it
holds exactly one primary key, and that one has this fingerprint. -/
theorem singleKey_exact (blocks : List KeyBlock) (fingerprint : String) :
    parseFingerprints (keyListing blocks) = blocks.map (fun block => block.fpr.value) ∧
    (parseFingerprints (keyListing blocks) = [fingerprint] ↔
      ∃ block, blocks = [block] ∧ block.fpr.value = fingerprint) ∧
    ∀ bytes ≤ maxManifestBytes,
      (fetchRepositoryKey fingerprint true (.ok bytes) (.ok (true, keyListing blocks)) = .ok () ↔
        ∃ block, blocks = [block] ∧ block.fpr.value = fingerprint) := by
  have hsingle : parseFingerprints (keyListing blocks) = [fingerprint] ↔
      ∃ block, blocks = [block] ∧ block.fpr.value = fingerprint := by
    rw [parseFingerprints_keyListing, List.map_eq_singleton_iff]
  refine ⟨parseFingerprints_keyListing blocks, hsingle, fun bytes hbytes => ?_⟩
  rw [fetchRepositoryKey_eq_ok, ← hsingle]
  constructor
  · rintro ⟨-, -, output, houtput, hfound⟩
    cases houtput
    exact hfound
  · intro hfound
    exact ⟨rfl, ⟨bytes, rfl, hbytes⟩, _, rfl, hfound⟩

end LyraUpgrade
