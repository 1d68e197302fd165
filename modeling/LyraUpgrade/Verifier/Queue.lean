import LyraUpgrade.Verifier.Reconciliation

/-!
# Several operations before one boot

Updates of the running system may be applied one after the other before the machine is
restarted; each of them waits for the check of a boot.  A boot checks only the latest of
them, against the inventory that the operation's own plan asks for, and the others wait for
the boots that follow (`boots_decide`).  So an operation can wait longer than one boot, and
when its turn comes the packages may be those of a later operation.
-/

namespace LyraUpgrade

open Interaction

/-- The verifier after each of `n` boots. -/
def boots (ext : Externals) : ℕ → Prog Sig Unit
  | 0 => return ()
  | n + 1 => do
      let _ ← verifierMain ext
      boots ext n

/-- Every probe succeeds, and what is installed stays as it is in `report`. -/
def Healthy (report : InventoryReport) (e : Event Sig) : Prop :=
  match e with
  | ⟨.query .discoverHost, answer⟩ => ∃ facts : HostFacts, answer = Except.ok facts ∧
      facts.rootFilesystem = "btrfs" ∧ facts.snapperRootConfigured
  | ⟨.query (.probe _), answer⟩ => (answer : Bool) = true
  | ⟨.query .captureInventory, answer⟩ => (answer : Io InventoryReport) = .ok report
  | ⟨.query (.supervise result), answer⟩ => (answer : Option CheckFailure) = result
  | _ => True

/-- All of it. -/
def Uneventful (report : InventoryReport) (t : Trace) : Prop := ∀ e ∈ t, Healthy report e

/-- An update that was applied to the running system. -/
structure AppliedUpdate (r : OperationStateRecord) : Prop where
  kind : r.operation = .updateWithinRelease
  recovery : r.recovery = none
  step : (r.lastCompletedStep.any fun step => "rollback-".toList.isPrefixOf step.toList) = false

namespace World

/-- The inventory is the one that the operation's own plan asks for. -/
def carriedOut (ext : Externals) (w : World) (report : InventoryReport)
    (r : OperationStateRecord) : Bool :=
  match (w.operations r.operationId).plan with
  | none => false
  | some plan => plan.sha256 ext.sha256 = r.planSha256 && verifyResult plan report

/-- What the check of the operation says. -/
def verdict (ext : Externals) (w : World) (report : InventoryReport) (r : OperationStateRecord) :
    Option CheckFailure :=
  if w.carriedOut ext report r then none else some .inventory

/-- The record in which the check of an operation leaves it. -/
def decided (ext : Externals) (w : World) (report : InventoryReport) (r : OperationStateRecord) :
    OperationStateRecord :=
  let entered := (enterVerification r).getD r
  if w.carriedOut ext report r then completedRecord entered
  else recoveryRecord entered CheckFailure.inventory.code

/-- The operations that wait, in the order in which boots will check them. -/
structure Queue (w : World) (queue : List OperationStateRecord) : Prop where
  mem : ∀ r, r ∈ queue ↔ w.Pending r
  nodup : queue.Nodup
  sorted : queue.Pairwise fun a b => earlierCandidate a b

end World

/-! ## The check of one operation -/

section

variable {report : InventoryReport} {w : World} {t : Trace} {ext : Externals}
variable {v : OperationStateRecord}

theorem Uneventful.mono {t' : Trace} (h : Uneventful report t') (hgrown : t <+: t') :
    Uneventful report t :=
  fun e he => h e (hgrown.subset he)

/-- What was not healthy is in the trace to the end. -/
theorem wp_eventful {α : Type} {Q : α → World × Trace → Prop} (h : ¬ Uneventful report t)
    (p : Prog Sig α) : p.wp reliable (fun a s => Uneventful report s.2 → Q a s) (w, t) := by
  refine Prog.wp_mono ?_ (Machine.wp_alone_grows (Machine.wp_alone_true p _))
  rintro a s ⟨-, hgrown⟩ hall
  exact absurd (hall.mono hgrown) h

theorem wp_healthy {α : Type} {e : Op} {f : e.Answer → Prog Sig α} {Q : α → World × Trace → Prop}
    (h : ∀ answer w', exec false 0 e w answer w' → Healthy report ⟨e, answer⟩ →
      (f answer).wp reliable (fun a s => Uneventful report s.2 → Q a s) (w', t ++ [⟨e, answer⟩])) :
    (ask e >>= f).wp reliable (fun a s => Uneventful report s.2 → Q a s) (w, t) := by
  rw [Prog.wp_bind]
  refine ⟨trivial, ?_⟩
  rintro answer ⟨w', t'⟩ ⟨hexec, htrace⟩
  obtain rfl : t' = t ++ [⟨e, answer⟩] := htrace
  by_cases hhealthy : Healthy report ⟨e, answer⟩
  · exact h answer w' hexec hhealthy
  · refine wp_eventful (fun hall => ?_) (f answer)
    exact hhealthy (hall _ (List.mem_append_right _ (List.mem_singleton_self _)))

/-- The probes pass. -/
theorem wp_runProbes_healthy (probes : List (Probe × CheckFailure)) :
    (runProbes probes).wp reliable (fun result s => Uneventful report s.2 →
      result = .ok () ∧ s.1 = w) (w, t) := by
  induction probes generalizing t with
  | nil => exact fun _ => ⟨rfl, rfl⟩
  | cons probe probes ih =>
      obtain ⟨probe, failure⟩ := probe
      refine wp_healthy fun passed w' hexec hhealthy => ?_
      obtain rfl : w' = w := hexec
      obtain rfl : passed = true := hhealthy
      exact ih

/-- The inventory is compared with the operation's own plan. -/
theorem wp_verifyInventory_healthy (hrecovery : v.recovery = none) :
    (verifyInventory ext v).wp reliable (fun result s => Uneventful report s.2 →
      result = if w.carriedOut ext report v then .ok () else .error .inventory) (w, t) := by
  unfold verifyInventory
  rw [hrecovery]
  refine wp_healthy fun captured w₁ hexec hhealthy => ?_
  obtain rfl : w₁ = w := hexec
  obtain rfl : captured = .ok report := hhealthy
  refine wp_healthy fun written w₂ hexec _ => ?_
  rcases hexec with ⟨rfl, rfl⟩ | ⟨hfaults, -⟩
  · refine wp_healthy fun plan w₃ hexec _ => ?_
    obtain ⟨rfl, rfl | ⟨hfaults, -⟩⟩ := hexec
    · have hplan : ((w₁.modify v.operationId fun d =>
          { d with inventory := Function.update d.inventory .after (some report) }).operations
            v.operationId).plan = (w₁.operations v.operationId).plan := by
        rw [World.modify_self]
      rw [hplan, World.carriedOut]
      cases (w₁.operations v.operationId).plan with
      | none => exact fun _ => rfl
      | some plan =>
          intro _
          simp only [Bool.and_eq_true, decide_eq_true_eq]
    · cases hfaults
  · cases hfaults

/-- **The check of an update** that was applied depends on its own plan only. -/
theorem wp_verify_healthy (happlied : AppliedUpdate v) (htarget : v.target = none) :
    (verify ext v).wp reliable (fun result s => Uneventful report s.2 →
      result = if w.carriedOut ext report v then .ok () else .error .inventory) (w, t) := by
  unfold verify
  refine wp_healthy fun facts w' hexec hhealthy => ?_
  obtain rfl : w' = w := hexec
  obtain ⟨facts, rfl, hfilesystem, hsnapper⟩ := hhealthy
  have hrelease : verifyRelease v facts.release = .ok () := by
    unfold verifyRelease
    rw [happlied.recovery, happlied.step, htarget]
    rfl
  have hrecovery : verifyRecovery v = pure (.ok ()) := by
    unfold verifyRecovery
    rw [happlied.recovery]
  dsimp only
  rw [hrelease, hrecovery, hfilesystem, hsnapper]
  have hprobes : ∀ t, (runProbes systemProbes).wp reliable (fun result s =>
      Uneventful report s.2 → result = .ok () ∧ s.1 = w') (w', t) :=
    fun t => wp_runProbes_healthy systemProbes
  have hfound : ¬ ("btrfs" ≠ "btrfs" ∨ (!true) = true) := by decide
  dsimp only
  rw [pure_bind]
  dsimp only
  rw [if_neg hfound, Prog.wp_bind]
  refine Prog.wp_mono ?_ (hprobes _)
  rintro probed ⟨w₁, t₁⟩ hprobed
  by_cases hall : Uneventful report t₁
  · obtain ⟨rfl, hworld⟩ := hprobed hall
    obtain rfl : w₁ = w' := hworld
    exact wp_verifyInventory_healthy happlied.recovery
  · exact wp_eventful hall _

end

/-! ## What one boot does to the queue -/

/-- What the check of an operation reports on a boot without surprises. -/
def Foretold (ext : Externals) (w : World) (report : InventoryReport) (m : OperationStateRecord)
    (answer : Option CheckFailure) (t : Trace) : Prop :=
  Uneventful report t → answer = w.verdict ext report m

/-- The records that a boot leaves: those that it closed or decided are final, and nothing
happened to the others. -/
structure BootLeaves (w w' : World) (checked : Option OperationStateRecord) : Prop where
  stored : ∀ r, w'.Stored r → r.state.isTerminal ∨
    (w.Stored r ∧ w.interrupts r = false ∧ checked ≠ some r)
  kept : ∀ r, w.Stored r → w.interrupts r = false → checked ≠ some r →
    w'.operations r.operationId = w.operations r.operationId
  marker : w'.marker = w.marker

section

variable {report : InventoryReport} {w w' : World} {t : Trace} {ext : Externals}
variable {r m v result : OperationStateRecord} {queue : List OperationStateRecord}

theorem not_pending_of_terminal (h : r.state.isTerminal) : isPending r = false := by
  unfold isPending
  generalize r.state = state at h
  cases state <;> first | rfl | cases h

theorem not_interrupts_of_terminal (h : r.state.isTerminal) : w.interrupts r = false := by
  unfold World.interrupts
  generalize r.state = state at h
  cases state <;> first | rfl | cases h

theorem World.interrupts_congr (h : w'.marker = w.marker) : w'.interrupts r = w.interrupts r := by
  unfold World.interrupts World.marked
  rw [h]

theorem terminal_interruptedRecord (h : (interruptedState r.state).isSome) :
    (interruptedRecord r).state.isTerminal := by
  rcases interruptedRecord_state h with hstate | hstate <;> rw [hstate] <;> rfl

theorem Outcome.terminal {failure : Option CheckFailure} (h : Outcome v failure result) :
    result.state.isTerminal := by
  unfold Outcome at h
  split at h
  · rw [h]
    rfl
  · rcases h with rfl | ⟨-, -, rfl⟩ <;> rfl

/-- The world in which what was interrupted is closed. -/
theorem bootLeaves_settled : BootLeaves w w.settled none where
  stored := by
    intro r hr
    by_cases hfound : ∃ r', w.Interrupted r' ∧ r'.operationId = r.operationId
    · obtain ⟨r', hr', hid⟩ := hfound
      have hstate : w.settled.state r.operationId = .record (interruptedRecord r') := by
        rw [← hid, World.state, World.settled_interrupted hr']
        rfl
      rw [hr.state] at hstate
      cases hstate
      exact .inl (terminal_interruptedRecord (World.unfinished_of_interrupts hr'.2))
    · have hsame : w.settled.operations r.operationId = w.operations r.operationId :=
        World.settled_of_not fun r' hr' hid => hfound ⟨r', hr', hid⟩
      have hstored : w.Stored r := by
        unfold World.Stored World.state at hr ⊢
        rwa [hsame] at hr
      refine .inr ⟨hstored, ?_, fun h => by cases h⟩
      cases hinterrupts : w.interrupts r with
      | false => rfl
      | true => exact absurd ⟨r, ⟨hstored, hinterrupts⟩, rfl⟩ hfound
  kept := fun r hr hnot _ => World.settled_stored hr hnot
  marker := rfl

theorem bootLeaves_attested {answer failure : Option CheckFailure} {s : World × Trace}
    (hchosen : w.Chosen m) (hid : v.operationId = m.operationId)
    (h : Attested w.settled v answer failure result s) : BootLeaves w s.1 (some m) where
  stored := by
    intro r hr
    by_cases heq : r.operationId = v.operationId
    · have hstate := h.stored
      rw [← heq, hr.state] at hstate
      cases hstate
      exact .inl h.outcome.terminal
    · have hsame := h.others r.operationId heq
      have hsettled : w.settled.Stored r := by
        unfold World.Stored World.state at hr ⊢
        rwa [hsame] at hr
      rcases bootLeaves_settled.stored r hsettled with hterminal | ⟨hstored, hnot, -⟩
      · exact .inl hterminal
      · refine .inr ⟨hstored, hnot, ?_⟩
        rintro ⟨⟩
        exact heq hid.symm
  kept := by
    intro r hr hnot hne
    have heq : r.operationId ≠ v.operationId := by
      intro heq
      obtain rfl := hr.eq hchosen.1.1 (heq.trans hid)
      exact hne rfl
    rw [h.others _ heq]
    exact World.settled_stored hr hnot
  marker := h.marker

namespace BootLeaves

variable {checked : Option OperationStateRecord}

theorem stored_of_kept (h : BootLeaves w w' checked) (hr : w.Stored r) (hnot : w.interrupts r = false)
    (hne : checked ≠ some r) : w'.Stored r := by
  unfold World.Stored World.state
  rw [h.kept r hr hnot hne]
  exact hr

theorem closable (h : BootLeaves w w' checked) (hclosable : w.Closable) : w'.Closable := by
  intro r hr hbad
  rcases h.stored r hr with hterminal | ⟨hstored, -, -⟩
  · rw [hbad.1] at hterminal
    cases hterminal
  · exact hclosable r hstored hbad

/-- What waited and was not checked still waits, and nothing else does. -/
theorem pending_iff (h : BootLeaves w w' checked) :
    w'.Pending r ↔ w.Pending r ∧ checked ≠ some r := by
  constructor
  · rintro ⟨hstored, hpending⟩
    rcases h.stored r hstored with hterminal | ⟨hstored, -, hne⟩
    · rw [not_pending_of_terminal hterminal] at hpending
      cases hpending
    · exact ⟨⟨hstored, hpending⟩, hne⟩
  · rintro ⟨⟨hstored, hpending⟩, hne⟩
    exact ⟨h.stored_of_kept hstored (World.not_interrupts_of_pending hpending) hne, hpending⟩

theorem decided_eq (h : BootLeaves w w' checked) (hr : w.Pending r) (hne : checked ≠ some r) :
    w'.decided ext report r = w.decided ext report r := by
  unfold World.decided World.carriedOut
  rw [h.kept r hr.1 (World.not_interrupts_of_pending hr.2) hne]

end BootLeaves

/-- The head of the queue is the operation that the next boot chooses. -/
theorem World.Queue.chosen (h : w.Queue (m :: queue)) : w.Chosen m := by
  refine ⟨(h.mem m).mp (List.mem_cons_self ..), fun r hr => ?_⟩
  rcases List.mem_cons.mp ((h.mem r).mpr hr) with rfl | hmem
  · exact (earlierCandidate_total r r).elim id id
  · exact (List.pairwise_cons.mp h.sorted).1 r hmem

theorem World.Queue.tail (h : w.Queue (m :: queue)) (hleaves : BootLeaves w w' (some m)) :
    w'.Queue queue where
  mem := by
    intro r
    rw [hleaves.pending_iff, ← h.mem r, List.mem_cons]
    constructor
    · intro hr
      refine ⟨.inr hr, ?_⟩
      rintro ⟨⟩
      exact (List.nodup_cons.mp h.nodup).1 hr
    · rintro ⟨rfl | hr, hne⟩
      · exact absurd rfl hne
      · exact hr
  nodup := (List.nodup_cons.mp h.nodup).2
  sorted := (List.pairwise_cons.mp h.sorted).2

theorem enterVerification_cases (h : enterVerification m = some v) :
    v = m ∨ v = m.advance .verifyingBoot := by
  unfold enterVerification at h
  split_ifs at h
  · cases htransition : m.transitionTo .verifyingBoot with
    | error e =>
        rw [htransition] at h
        cases h
    | ok r =>
        rw [htransition] at h
        cases h
        exact .inr (OperationStateRecord.transitionTo_eq_ok.mp htransition).2.2.2
  · cases h
    exact .inl rfl

/-- What the check of the chosen operation reports. -/
theorem wp_checkBoot_foretold (report : InventoryReport) (hchosen : w.Chosen m) (happlied : AppliedUpdate m)
    (henter : enterVerification m = some v) (lock : Option ℕ) (t : Trace) :
    (checkBoot ext v.operationId).wp reliable (fun answer s => Foretold ext w report m answer s.2)
      ({ w.settled with lock := lock }.putState v, t) := by
  obtain ⟨v', henter', hloadable, -, hid⟩ :=
    exists_enterVerification hchosen.1.1.loadable hchosen.1.2
  cases henter.symm.trans henter'
  have hcases := enterVerification_cases henter
  have hentered : AppliedUpdate v := by
    rcases hcases with rfl | rfl <;> exact ⟨happlied.kind, happlied.recovery, happlied.step⟩
  have htarget : v.target = none := by
    have hshape := hloadable.valid.operation
    rw [operationShapeValid, hentered.kind] at hshape
    exact Option.isNone_iff_eq_none.mp (Bool.and_eq_true_iff.mp hshape).1
  have hstored : ({ w.settled with lock := lock }.putState v).state v.operationId = .record v :=
    World.state_putState_self v
  have hplan : ({ w.settled with lock := lock }.putState v).carriedOut ext report v =
      w.carriedOut ext report m := by
    have hdirectory : (({ w.settled with lock := lock }.putState v).operations v.operationId).plan =
        (w.operations m.operationId).plan := by
      rw [World.putState, World.modify_self, hid]
      show (w.settled.operations m.operationId).plan = _
      rw [World.settled_stored hchosen.1.1 (World.not_interrupts_of_pending hchosen.1.2)]
    have hsha256 : v.planSha256 = m.planSha256 := by rcases hcases with rfl | rfl <;> rfl
    unfold World.carriedOut
    rw [hdirectory, hsha256]
  refine yields_load.wp_bind_of fun t' _ => ?_
  rw [loadState_eq_ok.mpr ⟨hstored, rfl, hloadable⟩]
  dsimp only
  rw [Prog.wp_bind]
  have hverify : ∀ w' t', (verify ext v).wp reliable (fun result s => Uneventful report s.2 →
      result = if w'.carriedOut ext report v then .ok () else .error .inventory) (w', t') :=
    fun w' t' => wp_verify_healthy hentered htarget
  refine Prog.wp_mono ?_ (hverify _ t')
  intro result s hresult
  have hforetold : Uneventful report s.2 →
      result = (w.verdict ext report m).elim (.ok ()) .error := by
    intro hall
    rw [hresult hall, hplan, World.verdict]
    split_ifs <;> rfl
  rcases result with failure | ⟨⟩
  · intro hall
    have heq := hforetold hall
    cases hverdict : w.verdict ext report m with
    | none => rw [hverdict] at heq; cases heq
    | some failure' => rw [hverdict] at heq; cases heq; rfl
  · intro hall
    have heq := hforetold hall
    cases hverdict : w.verdict ext report m with
    | none => rfl
    | some failure' => rw [hverdict] at heq; cases heq

/-- Where nothing is unexpected, the record of the result is the one foretold. -/
theorem Attested.decided {answer failure : Option CheckFailure} {s : World × Trace}
    {w₀ : World} (h : Attested w₀ v answer failure result s) (happlied : AppliedUpdate m)
    (henter : enterVerification m = some v) (hforetold : Foretold ext w report m answer s.2)
    (hall : Uneventful report s.2) : result = w.decided ext report m := by
  have hanswer : answer = w.verdict ext report m := hforetold hall
  have hfailure : failure = answer := hall _ h.supervised
  have hkind : v.operation = .updateWithinRelease := by
    rcases enterVerification_cases henter with rfl | rfl <;> exact happlied.kind
  have houtcome := h.outcome
  rw [hfailure, hanswer] at houtcome
  unfold World.verdict at houtcome
  unfold World.decided
  rw [henter]
  dsimp only [Option.getD_some]
  split_ifs at houtcome ⊢ with hcarried
  · rcases houtcome with hresult | ⟨-, hsigned, -⟩
    · exact hresult
    · rw [hkind] at hsigned
      cases hsigned
  · exact houtcome

/-- What a boot has done for the operation it chose, if there was one. -/
inductive Decides (ext : Externals) (report : InventoryReport) (w : World) (s : World × Trace) :
    Prop
  | idle (nothing : ∀ r, ¬ w.Pending r) (leaves : BootLeaves w s.1 none)
  | decided (m r : OperationStateRecord) (chosen : w.Chosen m) (leaves : BootLeaves w s.1 (some m))
      (stored : s.1.Stored r) (id : r.operationId = m.operationId) (terminal : r.state.isTerminal)
      (foretold : Uneventful report s.2 → r = w.decided ext report m)

/-- **One boot** decides the operation it chooses, by that operation's own plan. -/
theorem wp_boot (report : InventoryReport) (hfree : w.lock = none) (hclosable : w.Closable)
    (happlied : ∀ r, w.Pending r → AppliedUpdate r) (t : Trace) :
    (verifierMain ext).wp reliable (fun _ s => (s.1.lock = none ∧ Decides ext report w s) ∧
      t <+: s.2) (w, t) := by
  have hlasting : Lasting fun answer t => ∀ m, w.Chosen m → Foretold ext w report m answer t := by
    intro answer t t' hgrown hforetold m hm hall
    exact hforetold m hm (hall.mono hgrown)
  refine Machine.wp_alone_grows (Prog.wp_mono ?_
    (wp_verifierMain_reconciled hlasting hfree hclosable ?_))
  · rintro exit s ⟨hlock, hreconciled⟩
    refine ⟨hlock, ?_⟩
    cases hreconciled with
    | idle hnone settled => exact .idle hnone (settled ▸ bootLeaves_settled)
    | checked m v result answer failure chosen entered reported attested =>
        obtain ⟨v', entered', hloadable, hpending, hid⟩ :=
          exists_enterVerification chosen.1.1.loadable chosen.1.2
        cases entered.symm.trans entered'
        have houtcome := attested.outcome
        have hresult : result.operationId = m.operationId := houtcome.operationId.trans hid
        have hstate : s.1.state m.operationId = .record result := hid ▸ attested.stored
        refine .decided m result chosen (bootLeaves_attested chosen hid attested) ⟨?_, ?_⟩ hresult
          houtcome.terminal fun hall => ?_
        · rw [hresult, ← hid]
          exact attested.present
        · rw [hresult]
          exact loadState_eq_ok.mpr ⟨hstate, hresult, houtcome.loadable hloadable hpending⟩
        · exact attested.decided (happlied m chosen.1) entered (reported m chosen) hall
  · intro m v lock t hm henter
    refine Prog.wp_mono ?_ (wp_checkBoot_foretold report hm (happlied m hm.1) henter lock t)
    intro answer s hforetold m' hm'
    obtain rfl := hm'.eq hm
    exact hforetold

/-- What `n` boots leave of the queue and of the operations that are finished. -/
structure Worked (ext : Externals) (report : InventoryReport) (w : World)
    (queue : List OperationStateRecord) (n : ℕ) (s : World × Trace) : Prop where
  finished : ∀ r, w.Stored r → r.state.isTerminal → s.1.state r.operationId = .record r
  decided : Uneventful report s.2 → ∀ k r, queue[k]? = some r → s.1.state r.operationId =
    .record (if k < n then w.decided ext report r else r)

theorem wp_boots (report : InventoryReport) (hfree : w.lock = none) (hclosable : w.Closable) (hqueue : w.Queue queue)
    (happlied : ∀ r, w.Pending r → AppliedUpdate r) (n : ℕ) (t : Trace) :
    (boots ext n).wp reliable (fun _ s => Worked ext report w queue n s ∧ t <+: s.2) (w, t) := by
  refine Machine.wp_alone_grows ?_
  induction n generalizing w queue t with
  | zero =>
      refine ⟨fun r hr _ => hr.state, fun _ k r hr => ?_⟩
      rw [if_neg (Nat.not_lt_zero k)]
      exact ((hqueue.mem r).mp (List.mem_of_getElem? hr)).1.state
  | succ n ih =>
      unfold boots
      rw [Prog.wp_bind]
      refine Prog.wp_mono ?_ (wp_boot report hfree hclosable happlied t)
      rintro exit ⟨w₁, t₁⟩ ⟨⟨hlock, hdecides⟩, -⟩
      cases hdecides with
      | idle hnone leaves =>
          obtain rfl : queue = [] :=
            List.eq_nil_iff_forall_not_mem.mpr fun r hr => hnone r ((hqueue.mem r).mp hr)
          have hnone₁ : ∀ r, ¬ w₁.Pending r := fun r hr => hnone r (leaves.pending_iff.mp hr).1
          have hqueue₁ : w₁.Queue [] :=
            ⟨fun r => iff_of_false (List.not_mem_nil) (hnone₁ r), List.nodup_nil, .nil⟩
          refine Prog.wp_mono ?_ (ih hlock (leaves.closable hclosable) hqueue₁
            (fun r hr => absurd hr (hnone₁ r)) t₁)
          rintro u s hworked
          refine ⟨fun r hr hterminal => ?_, fun _ k r hr => by cases hr⟩
          exact hworked.finished r (leaves.stored_of_kept hr
            (not_interrupts_of_terminal hterminal) fun h => by cases h) hterminal
      | decided m r₁ chosen leaves stored hid terminal foretold =>
          obtain ⟨rest, rfl⟩ : ∃ rest, queue = m :: rest := by
            cases queue with
            | nil => exact absurd ((hqueue.mem m).mpr chosen.1) List.not_mem_nil
            | cons head rest => exact ⟨rest, by rw [hqueue.chosen.eq chosen]⟩
          have hrest : ∀ r ∈ rest, w.Pending r ∧ some m ≠ some r := by
            intro r hr
            refine ⟨(hqueue.mem r).mp (List.mem_cons_of_mem _ hr), ?_⟩
            rintro ⟨⟩
            exact (List.nodup_cons.mp hqueue.nodup).1 hr
          refine Prog.wp_mono ?_ (Machine.wp_alone_grows (ih hlock (leaves.closable hclosable)
            (hqueue.tail leaves) (fun r hr => happlied r (leaves.pending_iff.mp hr).1) t₁))
          rintro u s ⟨hworked, hgrown⟩
          refine ⟨fun r hr hterminal => ?_, fun hall k r hr => ?_⟩
          · refine hworked.finished r (leaves.stored_of_kept hr
              (not_interrupts_of_terminal hterminal) ?_) hterminal
            rintro ⟨⟩
            have hnot := not_pending_of_terminal hterminal
            rw [chosen.1.2] at hnot
            cases hnot
          · cases k with
            | zero =>
                cases hr
                rw [if_pos (Nat.succ_pos n), ← foretold (hall.mono hgrown), ← hid]
                exact hworked.finished r₁ stored terminal
            | succ k =>
                obtain ⟨hpending, hne⟩ := hrest r (List.mem_of_getElem? hr)
                rw [hworked.decided hall k r hr, leaves.decided_eq hpending hne]
                simp only [Nat.add_lt_add_iff_right]

/-- **The queue is worked off one operation a boot.**  After `n` boots the first `n` operations
are decided, each by its own plan, and the others wait as they did. -/
theorem boots_decide (report : InventoryReport) (hfree : w.lock = none) (hclosable : w.Closable) (hqueue : w.Queue queue)
    (happlied : ∀ r ∈ queue, AppliedUpdate r) (n : ℕ) :
    (boots ext n).wp reliable (fun _ s => Uneventful report s.2 →
      ∀ k r, queue[k]? = some r → s.1.state r.operationId =
        .record (if k < n then w.decided ext report r else r)) (w, []) := by
  refine Prog.wp_mono ?_ (wp_boots report hfree hclosable hqueue
    (fun r hr => happlied r ((hqueue.mem r).mpr hr)) n [])
  rintro u s ⟨hworked, -⟩
  exact hworked.decided

end

/-! ## Boots without surprises exist -/

section

variable {w w' : World} {report : InventoryReport} {ext : Externals}

theorem World.exists_lists_modify (h : ∃ entries, w.Lists entries) (id : String)
    (f : OperationDirectory → OperationDirectory) : ∃ entries, (w.modify id f).Lists entries := by
  obtain ⟨entries, hdistinct, hlisted⟩ := h
  have hother : ∀ id', id' ≠ id → ((w.modify id f).operations id').present =
      (w.operations id').present := fun id' hne => by rw [World.modify_of_ne hne]
  have hself : ((w.modify id f).operations id).present = true := by rw [World.modify_self]
  by_cases hpresent : (w.operations id).present
  · refine ⟨entries, hdistinct, fun id' => (hlisted id').trans ?_⟩
    by_cases hid : id' = id
    · subst hid
      exact iff_of_true hpresent hself
    · rw [hother id' hid]
  · refine ⟨.directory id :: entries, ?_, fun id' => ?_⟩
    · refine List.pairwise_cons.mpr ⟨fun entry hentry heq => ?_, hdistinct⟩
      subst heq
      exact absurd ((hlisted id).mp hentry) hpresent
    · rw [List.mem_cons, Entry.directory.injEq, hlisted id']
      by_cases hid : id' = id
      · subst hid
        exact iff_of_true (.inl rfl) hself
      · rw [hother id' hid]
        exact or_iff_right hid

/-- What is done to a store leaves one that can be listed. -/
theorem World.exists_lists_of_change {i : ℕ} {e : Op} (h : Change i w e w')
    (hlists : ∃ entries, w.Lists entries) : ∃ entries, w'.Lists entries := by
  cases h with
  | save | file => exact World.exists_lists_modify hlists _ _
  | none | acquire | release | link | unlink | create | write | rename => exact hlists

/-- Every operation can be answered without surprise. -/
theorem exists_healthy_answer (report : InventoryReport) (i : ℕ) (e : Op)
    (hlists : ∃ entries, w.Lists entries) : ∃ answer w', exec false i e w answer w' ∧
      Healthy report ⟨e, answer⟩ ∧ ∃ entries, w'.Lists entries := by
  obtain ⟨entries, hentries⟩ := hlists
  have hresult : ∃ answer w', exec false i e w answer w' ∧ Healthy report ⟨e, answer⟩ := by
    by_cases hlist : e = .listOperations
    · subst hlist
      exact ⟨.ok entries, w, ⟨rfl, .inl ⟨entries, rfl, hentries⟩⟩, trivial⟩
    · let oracle : Oracle :=
        { Sample.oracle with
          query := fun q =>
            match q with
            | .captureInventory => .ok report
            | q => Sample.oracle.query q }
      have hreply : exec false i e w (World.reply oracle i e w).1 (World.reply oracle i e w).2 :=
        World.exec_reply_of_ne false e w hlist
      refine ⟨_, _, hreply, ?_⟩
      cases e with
      | query q =>
          cases q <;> first | exact trivial | exact rfl | exact ⟨_, rfl, rfl, rfl⟩
      | _ => exact trivial
  obtain ⟨answer, w', hexec, hhealthy⟩ := hresult
  exact ⟨answer, w', hexec, hhealthy,
    World.exists_lists_of_change (exec_change hexec) ⟨entries, hentries⟩⟩

/-- What is promised of every boot holds at the end of one without surprises. -/
theorem exists_uneventful {α : Type} {p : Prog Sig α} {Q : α → World × Trace → Prop}
    (hlists : ∃ entries, w.Lists entries) (h : p.wp reliable Q (w, [])) :
    ∃ a s, Q a s ∧ Uneventful report s.2 := by
  have hnext : ∀ (e : Op) (s : World × Trace),
      ((∃ entries, s.1.Lists entries) ∧ Uneventful report s.2) → ∃ answer s',
        reliable.next e s answer s' ∧ (∃ entries, s'.1.Lists entries) ∧ Uneventful report s'.2 := by
    rintro e s ⟨hlists, hall⟩
    obtain ⟨answer, w', hexec, hhealthy, hlists'⟩ := exists_healthy_answer report 0 e hlists
    refine ⟨answer, (w', s.2 ++ [⟨e, answer⟩]), ⟨hexec, rfl⟩, hlists', fun e' he' => ?_⟩
    rcases List.mem_append.mp he' with he' | he'
    · exact hall e' he'
    · rw [List.mem_singleton.mp he']
      exact hhealthy
  obtain ⟨a, s, hQ, -, hall⟩ := Prog.exists_of_wp hnext ⟨hlists, fun e he => by cases he⟩ h
  exact ⟨a, s, hQ, hall⟩

end

namespace Sample

/-- Another update, of the packages that the first one has left. -/
def secondPlan : UpgradePlan :=
  { updatePlan with
    installedPackages := [⟨"nano", "2-1", "x86_64", "Lyra"⟩]
    packageChanges := [⟨"nano", "x86_64", .upgrade, some "2-1", some "3-1", some "Lyra",
      some "Lyra", some "lyra", 100, 10, 12⟩] }

def secondReport : InventoryReport :=
  { report with installedPackages := [⟨"nano", "3-1", "x86_64", "Lyra"⟩] }

def firstUpdate : OperationStateRecord :=
  { appliedRecord with operationId := operationId, snapshotNumber := some 7 }

def secondUpdate : OperationStateRecord :=
  { appliedRecord with updatedAt := "2026-06-01T12:30:00Z" }

/-- Two updates were applied before the machine is restarted. -/
def twoUpdates : World :=
  { twoRecords firstUpdate secondUpdate with
    operations := fun id =>
      { (twoRecords firstUpdate secondUpdate).operations id with
        plan := some (if id = operationId then updatePlan else secondPlan) } }

theorem pending_twoUpdates (r : OperationStateRecord) :
    r ∈ [secondUpdate, firstUpdate] ↔ twoUpdates.Pending r := by
  simp only [List.mem_cons, List.not_mem_nil, or_false]
  constructor
  · rintro (rfl | rfl) <;> exact ⟨⟨by decide +kernel, by decide +kernel⟩, by decide +kernel⟩
  · rintro ⟨hstored, -⟩
    have hr : (twoRecords firstUpdate secondUpdate).Stored r := hstored
    exact (eq_of_twoRecords hr).symm

theorem queue_twoUpdates : twoUpdates.Queue [secondUpdate, firstUpdate] :=
  ⟨pending_twoUpdates, by decide +kernel, by decide +kernel⟩

theorem applied_twoUpdates : ∀ r ∈ [secondUpdate, firstUpdate], AppliedUpdate r := by
  simp only [List.forall_mem_cons]
  exact ⟨⟨rfl, rfl, by decide +kernel⟩, ⟨rfl, rfl, by decide +kernel⟩, fun _ h => by cases h⟩

theorem closable_twoUpdates : twoUpdates.Closable := by
  intro r hr hbad
  rcases eq_of_twoRecords (show (twoRecords firstUpdate secondUpdate).Stored r from hr)
    with rfl | rfl <;> cases hbad.1

end Sample

/-- The second boot puts the earlier update where somebody has to recover it. -/
theorem boots_decide_sample : (boots Sample.externals 2).wp reliable (fun _ s =>
    Uneventful Sample.secondReport s.2 → ∀ k r,
      [Sample.secondUpdate, Sample.firstUpdate][k]? = some r → s.1.state r.operationId =
        .record (if k < 2 then Sample.twoUpdates.decided Sample.externals Sample.secondReport r
          else r)) (Sample.twoUpdates, []) :=
  boots_decide Sample.secondReport rfl Sample.closable_twoUpdates Sample.queue_twoUpdates
    Sample.applied_twoUpdates 2

/-- An operation may wait longer than one boot. -/
theorem boot_postpones : ¬ ∀ (w : World) (report : InventoryReport), w.lock = none → w.Closable →
    (∀ r, w.Pending r → AppliedUpdate r) →
    (verifierMain Sample.externals).wp reliable (fun _ s => Uneventful report s.2 →
      ∀ r, w.Pending r → ∀ r', s.1.state r.operationId = .record r' → isPending r' = false)
      (w, []) := by
  intro h
  have hpending := fun r hr => (Sample.pending_twoUpdates r).mp hr
  have happlied := fun r hr => Sample.applied_twoUpdates r ((Sample.pending_twoUpdates r).mpr hr)
  have hclaimed := h Sample.twoUpdates Sample.secondReport rfl Sample.closable_twoUpdates happlied
  have hboot : (verifierMain Sample.externals).wp reliable _ (Sample.twoUpdates, []) :=
    wp_boot Sample.secondReport rfl Sample.closable_twoUpdates happlied []
  have hlists : ∃ entries, Sample.twoUpdates.Lists entries :=
    ⟨_, Sample.lists_twoRecords (a := Sample.firstUpdate) (b := Sample.secondUpdate) (by decide)⟩
  obtain ⟨exit, s, ⟨hnone, ⟨-, hdecides⟩, -⟩, hall⟩ :=
    exists_uneventful hlists (Prog.wp_and hclaimed hboot)
  have hfirst : Sample.twoUpdates.Pending Sample.firstUpdate := hpending _ (by simp)
  cases hdecides with
  | idle nothing => exact nothing _ hfirst
  | decided m r chosen leaves =>
      have hne : some m ≠ some Sample.firstUpdate := by
        rw [chosen.eq Sample.queue_twoUpdates.chosen]
        decide +kernel
      have hstored := leaves.stored_of_kept hfirst.1
        (World.not_interrupts_of_pending hfirst.2) hne
      have hdecided := hnone hall _ hfirst _ hstored.state
      rw [hfirst.2] at hdecided
      cases hdecided

end LyraUpgrade
