import LyraUpgrade.Core.Masks

/-!
# User names and secrets in technical lines

Behind every `/home/` of a masked line stands `<user>`, and behind every secret key stands
`***` and the end of the value (`HomesMasked`, `AssignmentsMasked`).

A pass makes its property true, and the passes behind it keep it: what a later pass puts in
shares no character with `/home/` or with a key, so what is found in its output was there
before (`Rewrites.occurrence`); and it replaces nothing inside `<user>` or `***`, so what
followed it still follows (`Rewrites.follow`).
-/

namespace LyraUpgrade

open Encoding

/-- Behind every `/home/` stands `<user>`. -/
def HomesMasked (cs : List Char) : Prop :=
  ∀ a b, cs = a ++ ("/home/".toList ++ b) → "<user>".toList <+: b

/-- `***`, and then the value is over. -/
def ValueMasked (cs : List Char) : Prop :=
  ∃ rest, cs = "***".toList ++ rest ∧ StopsAt (fun c => endsValue c) rest

/-- Behind every occurrence of the key, in capitals or not, the value is masked. -/
def KeyMasked (key : SecretKey) (cs : List Char) : Prop :=
  ∀ a name b, cs = a ++ (name ++ b) → name.map Char.toLower = key.1 → ValueMasked b

def AssignmentsMasked (cs : List Char) : Prop := ∀ key ∈ secretKeys, KeyMasked key cs

/-! ## Letters -/

theorem toLower_cases (c : Char) :
    c.toLower = c ∨ (97 ≤ c.toLower.toNat ∧ c.toLower.toNat ≤ 122) := by
  unfold Char.toLower
  split_ifs with h
  · right
    have hlow : 65 ≤ c.val.toNat := h.1
    have hhigh : c.val.toNat ≤ 90 := h.2
    have hoffset : ('a'.val - 'A'.val).toNat = 32 := by decide
    have hsum : (c.val + ('a'.val - 'A'.val)).toNat = c.val.toNat + 32 := by
      rw [UInt32.toNat_add]
      omega
    show 97 ≤ (c.val + ('a'.val - 'A'.val)).toNat ∧ (c.val + ('a'.val - 'A'.val)).toNat ≤ 122
    omega
  · exact .inl rfl

/-- Only the character itself becomes one that is no letter. -/
theorem eq_of_toLower_eq {c d : Char} (h : c.toLower = d) (hd : d.toNat < 97 ∨ 122 < d.toNat) :
    c = d := by
  subst h
  rcases toLower_cases c with hsame | hletter
  · exact hsame.symm
  · omega

section

variable {cs out before old rest mask : List Char} {key other : SecretKey}

/-! ## User names -/

theorem homesMasked_maskHomePaths (input : List Char) : HomesMasked (maskHomePaths input) := by
  refine maskHomePaths_rule (motive := fun _ out => HomesMasked out) ?_ ?_ input
  · rintro xs hnone a b rfl
    exact absurd ⟨a, b, by rw [List.append_assoc]⟩ hnone
  · intro pre user rest out hfirst _ _ ih a b hsplit
    -- nothing begins in front of the first place
    have hbehind : pre.length ≤ a.length := by
      by_contra hless
      have hshort : a.length + "/home/".toList.length ≤ (pre ++ "/home/".toList).length := by
        rw [List.length_append]
        omega
      rw [← List.append_assoc pre] at hsplit
      obtain ⟨c, hc⟩ := split_of_length_le hsplit hshort (user ++ rest)
      rw [List.append_assoc] at hc
      exact hless (hfirst a c hc)
    obtain ⟨a', rfl, hrest⟩ := split_behind hsplit hbehind
    cases a' with
    | nil =>
        have hb := List.append_cancel_left hrest
        exact ⟨out, hb⟩
    | cons c a' =>
        have hinside : "home/<user>".toList ++ out = a' ++ ("/home/".toList ++ b) :=
          (List.cons.inj hrest).2
        obtain ⟨a'', rfl, hout⟩ := begins_after (by decide) hinside
        exact ih a'' b hout

/-- A pass keeps the user names masked if it puts in nothing of `/home/` and replaces nothing
inside `<user>`. -/
theorem HomesMasked.rewrites {site : List Char → List Char → List Char → List Char → Prop}
    (h : HomesMasked cs) (hrewrites : Rewrites site [] cs out)
    (hmask : ∀ b old rest mask, site b old rest mask → mask ≠ [] ∧ ∀ x ∈ mask, x ∉ "/home/".toList)
    (hfree : ∀ a f₁ f₂ x old rest mask, "<user>".toList = f₁ ++ f₂ → f₂ ≠ [] →
      f₂ ++ x = old ++ rest → ¬ site (a ++ ("/home/".toList ++ f₁)) old rest mask) :
    HomesMasked out := by
  intro a b hsplit
  obtain ⟨a', b', rfl, hb⟩ := hrewrites.occurrence (by decide) hmask hsplit
  obtain ⟨x, rfl⟩ := h a' b' rfl
  obtain ⟨y, rfl, -⟩ := hb.follow fun f₁ f₂ hf hne old rest mask hold => by
    simpa using hfree a' f₁ f₂ x old rest mask hf hne hold
  exact List.prefix_append ..

/-- A user name does not stand where a URL begins, and nothing in `<user>` begins a query. -/
theorem HomesMasked.maskUrls (h : HomesMasked cs) : HomesMasked (maskUrls cs) := by
  refine h.rewrites (maskUrls_rewrites [] cs) ?_ ?_
  · rintro b old rest mask (⟨rfl, -⟩ | ⟨rfl, -⟩)
    · decide
    · decide
  · rintro a f₁ f₂ x old rest mask hf hne hold (⟨-, hbefore⟩ | ⟨-, c, hc, hstarts⟩)
    · have hends : ∀ f ∈ "<user>".toList.inits, ¬ "://".toList <:+ "/home/".toList ++ f := by
        decide
      refine hends f₁ ((List.mem_inits _ _).mpr ⟨f₂, hf.symm⟩) ?_
      refine List.suffix_of_suffix_length_le hbefore (List.suffix_append a _) ?_
      show 3 ≤ _
      rw [List.length_append]
      exact Nat.le_add_right_of_le (by decide)
    · obtain ⟨d, f₂, rfl⟩ := List.exists_cons_of_ne_nil hne
      obtain ⟨old, rfl⟩ := List.head?_eq_some_iff.mp hc
      have hfirst : d = c := (List.cons.inj hold).1
      subst hfirst
      have hmem : d ∈ "<user>".toList := by
        rw [hf]
        simp
      have hnone : ∀ c ∈ "<user>".toList, ¬ (c = '?' ∨ c = '#') := by decide
      exact hnone d hmem hstarts

/-- What an assignment is masked behind ends with an equals sign. -/
theorem AssignmentSite.getLast? (hkey : key ∈ secretKeys)
    (h : AssignmentSite key before old rest mask) : before.getLast? = some '=' := by
  obtain ⟨name, hname, a, rfl⟩ := h.before
  have hlast : ∀ key ∈ secretKeys, key.1.getLast? = some '=' := by decide
  have hequals := hlast key hkey
  rw [← hname, List.getLast?_map] at hequals
  obtain ⟨c, hc, hlower⟩ := Option.map_eq_some_iff.mp hequals
  rw [eq_of_toLower_eq hlower (by decide)] at hc
  rw [List.getLast?_append, hc]
  rfl

theorem HomesMasked.maskAssignment (h : HomesMasked cs) (hkey : key ∈ secretKeys) :
    HomesMasked (maskAssignment key cs) := by
  refine h.rewrites (maskAssignment_rewrites key [] cs) ?_ ?_
  · rintro b old rest mask hsite
    rw [hsite.mask]
    decide
  · intro a f₁ f₂ x old rest mask hf _ _ hsite
    have hends : ∀ f ∈ "<user>".toList.inits,
        ("/home/".toList ++ f).getLast?.any (· ≠ '=') = true := by
      decide
    obtain ⟨c, hc, hother⟩ :=
      (Option.any_eq_true _ _).mp (hends f₁ ((List.mem_inits _ _).mpr ⟨f₂, hf.symm⟩))
    rw [decide_eq_true_eq] at hother
    have hlast := hsite.getLast? hkey
    rw [List.getLast?_append, hc] at hlast
    exact hother (Option.some.inj hlast)

/-! ## Assignments -/

/-- The pass for a key makes its property true. -/
theorem keyMasked_maskAssignment (hkey : key ∈ secretKeys) (input : List Char) :
    KeyMasked key (maskAssignment key input) := by
  refine (maskAssignment_rule (motive := fun input out =>
    KeyMasked key out ∧ out.head? = input.head?) key ?_ ?_ input).1
  · refine fun xs hnone => ⟨?_, rfl⟩
    rintro a name b rfl hname
    refine absurd ⟨a.map Char.toLower, b.map Char.toLower, ?_⟩ hnone
    rw [List.map_append, List.map_append, hname, List.append_assoc]
  · rintro pre name value rest out hname hfirst - hstops ⟨ih, hhead⟩
    have hlength : name.length = key.1.length := by rw [← hname, List.length_map]
    obtain ⟨d, name, rfl⟩ : ∃ d name', name = d :: name' := by
      cases name with
      | nil => exact absurd key.2 (by rw [← hlength]; exact Nat.lt_irrefl 0)
      | cons d name => exact ⟨d, name, rfl⟩
    refine ⟨fun a v b hsplit hv => ?_, by cases pre <;> rfl⟩
    have hv' : v.length = (d :: name).length := by rw [hlength, ← hv, List.length_map]
    have hbehind : pre.length ≤ a.length := by
      by_contra hless
      have hshort : a.length + v.length ≤ (pre ++ d :: name).length := by
        rw [List.length_append]
        omega
      rw [← List.append_assoc pre] at hsplit
      obtain ⟨c, hc⟩ := split_of_length_le hsplit hshort (value ++ rest)
      rw [List.append_assoc] at hc
      exact hless (hfirst a v c hc hv)
    obtain ⟨a', rfl, hrest⟩ := split_behind hsplit hbehind
    cases a' with
    | nil =>
        rw [List.nil_append] at hrest
        obtain ⟨rfl, rfl⟩ := List.append_inj hrest hv'.symm
        refine ⟨out, rfl, ?_⟩
        show StopsAt (fun c => endsValue c) out
        rwa [StopsAt, hhead]
    | cons c a' =>
        have hinside : (name ++ "***".toList) ++ out = a' ++ (v ++ b) := by
          rw [List.append_assoc]
          exact (List.cons.inj hrest).2
        -- a key does not begin inside itself or inside the mask
        have hnone : ∀ key ∈ secretKeys, ∀ c ∈ (key.1.tail ++ "***".toList).tails, c ≠ [] →
            ¬ c <+: key.1 ∧ ¬ key.1 <+: c := by
          decide
        have htail : key.1.tail = name.map Char.toLower := by rw [← hname]; rfl
        have hlower : (key.1.tail ++ "***".toList) ++ out.map Char.toLower =
            a'.map Char.toLower ++ (key.1 ++ b.map Char.toLower) := by
          have := congrArg (List.map Char.toLower) hinside
          simp only [List.map_append, hv, ← htail] at this
          exact this
        have hlong : (name ++ "***".toList).length ≤ a'.length := by
          have := length_le_of_begins (hnone key hkey) hlower
          rwa [htail, List.length_map, List.length_append, List.length_map,
            ← List.length_append] at this
        obtain ⟨a'', rfl, hout⟩ := split_behind hinside hlong
        exact ih a'' v b hout hv

/-- The pass for another key keeps it. -/
theorem KeyMasked.maskAssignment (h : KeyMasked other cs) (hkey : key ∈ secretKeys)
    (hother : other ∈ secretKeys) (hne : key ≠ other) :
    KeyMasked other (maskAssignment key cs) := by
  intro a name b hsplit hname
  have hstar : '*' ∉ name := by
    intro hmem
    have hnone : ∀ key ∈ secretKeys, '*' ∉ key.1 := by decide
    refine hnone other hother ?_
    rw [← hname]
    exact List.mem_map.mpr ⟨'*', hmem, rfl⟩
  have hname' : name ≠ [] := by
    rintro rfl
    exact absurd other.2 (by rw [← hname]; exact Nat.lt_irrefl 0)
  obtain ⟨a', b', rfl, hb⟩ := (maskAssignment_rewrites key [] cs).occurrence hname'
    (fun _ _ _ _ hsite => by rw [hsite.mask]; simpa using hstar) hsplit
  obtain ⟨rest, rfl, hstops⟩ := h a' name b' rfl hname
  -- no assignment ends inside the mask
  have hmask : ∀ {before old rest mask : List Char}, before.getLast? = some '*' →
      ¬ AssignmentSite key before old rest mask := by
    intro before old rest mask hlast hsite
    rw [hsite.getLast? hkey] at hlast
    exact absurd hlast (by decide)
  obtain ⟨y, rfl, hy⟩ := hb.follow fun f₁ f₂ hf hne' old rest mask _ hsite => by
    have hinits : ∀ f ∈ "***".toList.inits, f = [] ∨ f.getLast? = some '*' := by decide
    rcases hinits f₁ ((List.mem_inits _ _).mpr ⟨f₂, hf.symm⟩) with rfl | hlast
    · -- nor with the other key
      obtain ⟨n, hn, hends⟩ := hsite.before
      rw [List.append_nil, List.nil_append] at hends
      have hnone : ∀ key ∈ secretKeys, ∀ other ∈ secretKeys, key ≠ other →
          ¬ key.1 <:+ other.1 := by
        decide
      rcases List.suffix_or_suffix_of_suffix hends (List.suffix_append a' name) with hs | hs
      · refine hnone key hkey other hother hne ?_
        rw [← hn, ← hname]
        exact hs.map _
      · refine hnone other hother key hkey hne.symm ?_
        rw [← hn, ← hname]
        exact hs.map _
    · refine hmask ?_ hsite
      rw [List.getLast?_append, hlast]
      rfl
  refine ⟨y, rfl, ?_⟩
  rw [StopsAt, hy.head?_eq fun _ _ _ => hmask (by rw [List.getLast?_append]; rfl)]
  exact hstops

/-- **Every key is masked in the end**: its own pass masks it, and the others keep it. -/
theorem assignmentsMasked_maskAssignments (input : List Char) :
    AssignmentsMasked (maskAssignments input) := by
  have hrun : ∀ keys ⊆ secretKeys, ∀ key ∈ secretKeys, ∀ cs, key ∈ keys ∨ KeyMasked key cs →
      KeyMasked key (keys.foldl (fun result key => maskAssignment key result) cs) := by
    intro keys hkeys key hkey
    induction keys with
    | nil =>
        rintro cs (hmem | hmasked)
        · cases hmem
        · exact hmasked
    | cons first keys ih =>
        intro cs hcs
        refine ih (fun _ hmem => hkeys (List.mem_cons_of_mem _ hmem)) _ ?_
        have hfirst : first ∈ secretKeys := hkeys List.mem_cons_self
        by_cases hsame : first = key
        · subst hsame
          exact .inr (keyMasked_maskAssignment hkey cs)
        · rcases hcs with hmem | hmasked
          · exact .inl ((List.mem_cons.mp hmem).resolve_left (Ne.symm hsame))
          · exact .inr (hmasked.maskAssignment hfirst hkey hsame)
  intro key hkey
  exact hrun secretKeys (List.Subset.refl _) key hkey input (.inl hkey)

theorem homesMasked_maskLine (input : List Char) : HomesMasked (maskLine input) := by
  have hurls : HomesMasked (maskUrls (maskHomePaths input)) :=
    (homesMasked_maskHomePaths input).maskUrls
  rw [maskLine, maskAssignments]
  generalize maskUrls (maskHomePaths input) = line at hurls
  exact List.foldlRecOn (motive := HomesMasked) secretKeys
    (fun result key => maskAssignment key result) hurls fun _ h _ hkey => h.maskAssignment hkey

end

end LyraUpgrade
