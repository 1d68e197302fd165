import Mathlib.Data.List.Infix
import Mathlib.Order.WellFounded
import Mathlib.Tactic.Common

/-!
# A line there, a line back

A caller and a server share two streams.  The caller writes one line and then reads one; the
server reads a line, acts on it and writes one, and both read no more than a bounded number of
elements for a line.  The streams have a bounded room, elements go in and out of them one by
one and in any order, and the server can end at any moment; another is started then, with
streams of its own.

* `Wire`: how calls and answers stand on the streams, and `Wire.Sound`: the two ends understand
  each other.
* `Link.turn`: one step of either side.
* `Served`: the calls as they look from outside.  Each is acted on at most once, an answer is
  the answer to its call, and after a failure nothing is acted on before another server starts.
* `Link.run_served`: the calls of every run look like this, if its lines can be read.
* `Link.advances` and `Link.wellFounded_advance`: the two sides never wait for each other, and
  do not go on for ever.
-/

namespace Interaction

/-! ## Lines -/

section

variable {α : Type*} {stop x : α} {body before after : List α}

/-- The end of a line is where its last element stands. -/
theorem end_of_line (hbody : stop ∉ body) (h : before ++ stop :: after = body ++ [stop]) :
    before = body ∧ after = [] := by
  induction before generalizing body with
  | nil =>
      cases body with
      | nil => exact ⟨rfl, (List.cons_inj_right stop).mp h⟩
      | cons y body =>
          rw [List.nil_append, List.cons_append, List.cons.injEq] at h
          exact absurd (h.1 ▸ List.mem_cons_self) hbody
  | cons z before ih =>
      cases body with
      | nil =>
          rw [List.cons_append, List.nil_append, List.cons.injEq] at h
          exact absurd h.2 (List.append_ne_nil_of_right_ne_nil _ (List.cons_ne_nil _ _))
      | cons y body =>
          rw [List.cons_append, List.cons_append, List.cons.injEq] at h
          obtain ⟨rfl, rfl⟩ := ih (fun hmem => hbody (List.mem_cons_of_mem y hmem)) h.2
          exact ⟨by rw [h.1], rfl⟩

/-- What has no end is not all of a line. -/
theorem ne_nil_of_line (hbefore : stop ∉ before) (h : before ++ after = body ++ [stop]) :
    after ≠ [] := by
  rintro rfl
  rw [List.append_nil] at h
  exact hbefore (h ▸ List.mem_append_right body (List.mem_singleton_self stop))

end

/-! ## The two ends -/

/-- How calls and answers stand on the two streams. -/
structure Wire (α Q R E : Type*) where
  stop : α
  /-- The line of a call, without its end. -/
  ask : Q → List α
  reply : R → List α
  /-- What the server makes of the elements it has read for a line. -/
  readAsk : List α → Option Q
  readReply : List α → Except E R
  askLimit : ℕ
  replyLimit : ℕ
  /-- The answer to a line that is no call; the server leaves after it. -/
  refusal : R
  /-- How many elements stand in a stream that nobody reads. -/
  room : ℕ

namespace Wire

variable {α Q R E : Type*} (w : Wire α Q R E)

def askLine (q : Q) : List α := w.ask q ++ [w.stop]

def replyLine (r : R) : List α := w.reply r ++ [w.stop]

/-- The line of a call says that call, unless it is too long. -/
structure Carries (q : Q) : Prop where
  stop : w.stop ∉ w.ask q
  read : (w.askLine q).length ≤ w.askLimit → w.readAsk (w.askLine q) = some q

structure CarriesReply (r : R) : Prop where
  stop : w.stop ∉ w.reply r
  fits : (w.replyLine r).length ≤ w.replyLimit
  read : w.readReply (w.replyLine r) = .ok r

/-- The two ends understand each other about the calls of `C` and the answers of `P`. -/
structure Sound (C : Q → Prop) (P : Q → R → Prop) : Prop where
  call : ∀ q, C q → w.Carries q
  answer : ∀ q r, P q r → w.CarriesReply r
  refusal : w.CarriesReply w.refusal
  readAsk_long : ∀ line, w.askLimit < line.length → w.readAsk line = none
  readReply_part : ∀ line r, w.readReply line = .ok r → w.stop ∈ line

end Wire

inductive Server (α Q : Type*)
  /-- None has been started. -/
  | absent
  | listening (heard : List α)
  | handling (q : Q)
  | answering (rest : List α)
  | refusing (rest : List α)
  /-- It reads no more, and is kept from ending by something else. -/
  | leaving
  | gone

inductive Caller (α Q : Type*)
  | idle
  /-- What is still to be written, and what has been read. -/
  | calling (q : Q) (rest heard : List α)

/-- What happens, as seen from outside. -/
inductive Entry (Q R E : Type*)
  | started
  | called (q : Q)
  | accepted (q : Q)
  | answered (q : Q) (r : R)
  | returned (q : Q) (result : Except E R)

/-- What a caller finds that looks for a server which has ended. -/
inductive Found (E : Type*)
  /-- The end has not been noticed. -/
  | unseen
  | started
  | failed (e : E)

inductive Turn (Q R E : Type*)
  | call (q : Q) (found : Found E)
  /-- The error is that of a write which nobody can read. -/
  | write (e : E)
  /-- The error is that of a stream which has ended. -/
  | read (e : E)
  | listen
  | handle (answer : Q → R)
  | speak
  | leave
  | die

structure Link (α Q R E : Type*) where
  server : Server α Q
  caller : Caller α Q
  toServer : List α
  toCaller : List α
  log : List (Entry Q R E)

namespace Link

variable {α Q R E : Type*} [DecidableEq α] (w : Wire α Q R E) (link : Link α Q R E)

def new : Link α Q R E := ⟨.absent, .idle, [], [], []⟩

/-- A call begins.  A server that has ended is replaced, if that is noticed. -/
def call (q : Q) (found : Found E) : Link α Q R E :=
  match link.caller with
  | .calling .. => link
  | .idle =>
      let asking := { link with caller := .calling q (w.askLine q) [] }
      let fresh : Link α Q R E :=
        match found with
        | .unseen => { asking with log := link.log ++ [.called q] }
        | .started =>
            { asking with
              server := .listening []
              toServer := []
              toCaller := []
              log := link.log ++ [.started] ++ [.called q] }
        | .failed e =>
            { link with
              server := .absent
              toServer := []
              toCaller := []
              log := link.log ++ [.called q, .returned q (.error e)] }
      match link.server, found with
      | .absent, .unseen => link
      | .absent, _ | .gone, _ => fresh
      | _, _ => { asking with log := link.log ++ [.called q] }

def finish (q : Q) (result : Except E R) : Link α Q R E :=
  { link with caller := .idle, log := link.log ++ [.returned q result] }

def write (e : E) : Link α Q R E :=
  match link.caller with
  | .idle | .calling _ [] _ => link
  | .calling q (x :: rest) heard =>
      match link.server with
      | .gone => link.finish q (.error e)
      | _ =>
          if link.toServer.length < w.room then
            { link with caller := .calling q rest heard, toServer := link.toServer ++ [x] }
          else link

def read (e : E) : Link α Q R E :=
  match link.caller with
  | .idle | .calling _ (_ :: _) _ => link
  | .calling q [] heard =>
      match link.toCaller with
      | x :: rest =>
          let heard := heard ++ [x]
          let link := { link with toCaller := rest }
          if x = w.stop ∨ heard.length = w.replyLimit + 1 then link.finish q (w.readReply heard)
          else { link with caller := .calling q [] heard }
      | [] =>
          match link.server with
          | .gone =>
              match heard with
              | [] => link.finish q (.error e)
              | heard => link.finish q (w.readReply heard)
          | _ => link

def listen : Link α Q R E :=
  match link.server, link.toServer with
  | .listening heard, x :: rest =>
      let heard := heard ++ [x]
      let link := { link with toServer := rest }
      if x = w.stop ∨ heard.length = w.askLimit + 1 then
        match w.readAsk heard with
        | some q => { link with server := .handling q, log := link.log ++ [.accepted q] }
        | none => { link with server := .refusing (w.replyLine w.refusal) }
      else { link with server := .listening heard }
  | _, _ => link

def handle (answer : Q → R) : Link α Q R E :=
  match link.server with
  | .handling q =>
      { link with
        server := .answering (w.replyLine (answer q))
        log := link.log ++ [.answered q (answer q)] }
  | _ => link

/-- An element of an answer is written, and what follows the last. -/
def say (x : α) (server : Server α Q) : Link α Q R E :=
  if link.toCaller.length < w.room then
    { link with server, toCaller := link.toCaller ++ [x] }
  else link

def speak : Link α Q R E :=
  match link.server with
  | .answering (x :: rest) =>
      link.say w x (match rest with | [] => .listening [] | rest => .answering rest)
  | .refusing (x :: rest) =>
      link.say w x (match rest with | [] => .leaving | rest => .refusing rest)
  | _ => link

def leave : Link α Q R E :=
  match link.server with
  | .leaving => { link with server := .gone }
  | _ => link

def die : Link α Q R E :=
  match link.server with
  | .absent => link
  | _ => { link with server := .gone }

def turn : Turn Q R E → Link α Q R E
  | .call q found => link.call w q found
  | .write e => link.write w e
  | .read e => link.read w e
  | .listen => link.listen w
  | .handle answer => link.handle w answer
  | .speak => link.speak w
  | .leave => link.leave
  | .die => link.die

def run (turns : List (Turn Q R E)) : Link α Q R E := turns.foldl (turn w) link

end Link

/-! ## The calls as they look from outside -/

section

variable {α Q R E : Type*} (w : Wire α Q R E) (C : Q → Prop) (P : Q → R → Prop)

/-- Calls one after the other, and whether the server can still act on one.  `C` is what is known
of a call, `P` what is known of an answer. -/
inductive Served : Bool → List (Entry Q R E) → Prop
  | nil : Served false []
  | started {log : List (Entry Q R E)} (before : Served false log) :
      Served true (log ++ [Entry.started])
  | answered {log : List (Entry Q R E)} {q : Q} {r : R}
      (before : Served true log) (called : C q) (answer : P q r) :
      Served true (log ++ [Entry.called q, .accepted q, .answered q r, .returned q (.ok r)])
  /-- The line was too long; the server has not acted on it and acts on none any more. -/
  | refused {log : List (Entry Q R E)} {q : Q} (before : Served true log) (called : C q)
      (long : w.askLimit < (w.askLine q).length) :
      Served false (log ++ [Entry.called q, .returned q (.ok w.refusal)])
  | failed {serving : Bool} {log : List (Entry Q R E)} {q : Q} {e : E}
      (before : Served serving log) (called : C q) :
      Served false (log ++ [Entry.called q, .returned q (.error e)])
  /-- The server ended while it acted on the call. -/
  | dropped {log : List (Entry Q R E)} {q : Q} {e : E} (before : Served true log) (called : C q) :
      Served false (log ++ [Entry.called q, .accepted q, .returned q (.error e)])
  /-- The server ended before all of its answer was written. -/
  | lost {log : List (Entry Q R E)} {q : Q} {r : R} {e : E}
      (before : Served true log) (called : C q) (answer : P q r) :
      Served false (log ++ [Entry.called q, .accepted q, .answered q r, .returned q (.error e)])
  | ended {log : List (Entry Q R E)} (before : Served true log) : Served false log

theorem Served.ends {w : Wire α Q R E} {C : Q → Prop} {P : Q → R → Prop} {serving : Bool}
    {log : List (Entry Q R E)} (h : Served w C P serving log) : Served w C P false log := by
  cases serving with
  | false => exact h
  | true => exact .ended h

theorem Served.mono {w : Wire α Q R E} {C C' : Q → Prop} {P P' : Q → R → Prop}
    (hC : ∀ q, C q → C' q) (hP : ∀ q r, P q r → P' q r) {serving : Bool}
    {log : List (Entry Q R E)} (h : Served w C P serving log) : Served w C' P' serving log := by
  induction h with
  | nil => exact .nil
  | started _ ih => exact .started ih
  | answered _ called answer ih => exact .answered ih (hC _ called) (hP _ _ answer)
  | refused _ called long ih => exact .refused ih (hC _ called) long
  | failed _ called ih => exact .failed ih (hC _ called)
  | dropped _ called ih => exact .dropped ih (hC _ called)
  | lost _ called answer ih => exact .lost ih (hC _ called) (hP _ _ answer)
  | ended _ ih => exact .ended ih

/-- What is known of a step. -/
def Turn.Keeps (C : Q → Prop) (P : Q → R → Prop) : Turn Q R E → Prop
  | .call q _ => C q
  | .handle answer => ∀ q, C q → P q (answer q)
  | _ => True

/-! ## The invariant -/

/-- Where the elements of a call and of its answer are, at every stage. -/
inductive Link.Inv : Link α Q R E → Prop
  | absent {log : List (Entry Q R E)}
      (before : Served w C P false log) : Inv ⟨.absent, .idle, [], [], log⟩
  | resting {log : List (Entry Q R E)}
      (before : Served w C P true log) : Inv ⟨.listening [], .idle, [], [], log⟩
  | closing {toServer : List α} {log : List (Entry Q R E)} (before : Served w C P false log) :
      Inv ⟨.leaving, .idle, toServer, [], log⟩
  | finished {toServer toCaller : List α} {log : List (Entry Q R E)} {serving : Bool}
      (before : Served w C P serving log) :
      Inv ⟨.gone, .idle, toServer, toCaller, log⟩
  | asking {log : List (Entry Q R E)} {q : Q} {rest heard toServer : List α}
      (before : Served w C P true log) (called : C q)
      (line : heard ++ toServer ++ rest = w.askLine q) (unfinished : w.stop ∉ heard)
      (short : heard.length ≤ w.askLimit) :
      Inv ⟨.listening heard, .calling q rest [], toServer, [], log ++ [Entry.called q]⟩
  | handling {log : List (Entry Q R E)} {q : Q} (before : Served w C P true log) (called : C q) :
      Inv ⟨.handling q, .calling q [] [], [], [], log ++ [Entry.called q, .accepted q]⟩
  | answering {log : List (Entry Q R E)} {q : Q} {r : R} {heard toCaller rest : List α}
      (before : Served w C P true log) (called : C q)
      (answer : P q r) (line : heard ++ toCaller ++ rest = w.replyLine r)
      (unfinished : w.stop ∉ heard) (more : rest ≠ []) :
      Inv ⟨.answering rest, .calling q [] heard, [], toCaller,
        log ++ [Entry.called q, .accepted q, .answered q r]⟩
  | answered {log : List (Entry Q R E)} {q : Q} {r : R} {heard toCaller : List α}
      (before : Served w C P true log) (called : C q)
      (answer : P q r) (line : heard ++ toCaller = w.replyLine r) (unfinished : w.stop ∉ heard) :
      Inv ⟨.listening [], .calling q [] heard, [], toCaller,
        log ++ [Entry.called q, .accepted q, .answered q r]⟩
  | refusing {log : List (Entry Q R E)} {q : Q} {rest heard toServer toCaller more : List α}
      (before : Served w C P true log) (called : C q) (long : w.askLimit < (w.askLine q).length)
      (line : heard ++ toCaller ++ more = w.replyLine w.refusal) (unfinished : w.stop ∉ heard)
      (unsaid : more ≠ []) :
      Inv ⟨.refusing more, .calling q rest heard, toServer, toCaller, log ++ [Entry.called q]⟩
  | refused {log : List (Entry Q R E)} {q : Q} {rest heard toServer toCaller : List α}
      (before : Served w C P true log) (called : C q) (long : w.askLimit < (w.askLine q).length)
      (line : heard ++ toCaller = w.replyLine w.refusal) (unfinished : w.stop ∉ heard) :
      Inv ⟨.leaving, .calling q rest heard, toServer, toCaller, log ++ [Entry.called q]⟩
  /-- A server that is leaving is called. -/
  | unheard {log : List (Entry Q R E)} {q : Q} {rest toServer : List α}
      (before : Served w C P false log) (called : C q) :
      Inv ⟨.leaving, .calling q rest [], toServer, [], log ++ [Entry.called q]⟩
  | broken {log : List (Entry Q R E)} {q : Q} {rest toServer toCaller : List α} {serving : Bool}
      (before : Served w C P serving log) (called : C q) (silent : rest = [] → toCaller = []) :
      Inv ⟨.gone, .calling q rest [], toServer, toCaller, log ++ [Entry.called q]⟩
  | brokenRefusing {log : List (Entry Q R E)} {q : Q} {rest heard toServer toCaller : List α}
      (before : Served w C P true log) (called : C q) (long : w.askLimit < (w.askLine q).length)
      (line : heard ++ toCaller <+: w.replyLine w.refusal) (unfinished : w.stop ∉ heard) :
      Inv ⟨.gone, .calling q rest heard, toServer, toCaller, log ++ [Entry.called q]⟩
  | brokenHandling {log : List (Entry Q R E)} {q : Q}
      (before : Served w C P true log) (called : C q) :
      Inv ⟨.gone, .calling q [] [], [], [], log ++ [Entry.called q, .accepted q]⟩
  | brokenAnswering {log : List (Entry Q R E)} {q : Q} {r : R} {heard toCaller : List α}
      (before : Served w C P true log) (called : C q)
      (answer : P q r) (line : heard ++ toCaller <+: w.replyLine r)
      (unfinished : w.stop ∉ heard) :
      Inv ⟨.gone, .calling q [] heard, [], toCaller,
        log ++ [Entry.called q, .accepted q, .answered q r]⟩

end

namespace Link.Inv

variable {α Q R E : Type*} {w : Wire α Q R E} {C : Q → Prop} {P : Q → R → Prop}
  {link : Link α Q R E}

theorem new : (Link.new : Link α Q R E).Inv w C P := .absent .nil

theorem call (h : link.Inv w C P) {q : Q} (hq : C q) (found : Found E) :
    (link.call w q found).Inv w C P := by
  have hfresh {log} (before : Served w C P false log) :
      Inv w C P (⟨.listening [], .calling q (w.askLine q) [], [], [],
        log ++ [.started] ++ [.called q]⟩ : Link α Q R E) :=
    .asking (.started before) hq rfl List.not_mem_nil (Nat.zero_le _)
  have hsame := h
  cases h with
  | absent before =>
      cases found with
      | unseen => exact hsame
      | started => exact hfresh before
      | failed e => exact .absent (.failed before hq)
  | finished before =>
      cases found with
      | unseen => exact .broken before hq fun h => absurd h (List.concat_ne_nil _ _)
      | started => exact hfresh before.ends
      | failed e => exact .absent (.failed before hq)
  | resting before => exact .asking before hq rfl List.not_mem_nil (Nat.zero_le _)
  | closing before => exact .unheard before hq
  | asking | handling | answering | answered | refusing | refused | unheard | broken
  | brokenRefusing | brokenHandling | brokenAnswering => exact hsame

/-- While the server has not ended, a write waits or is done. -/
theorem write_of {server : Server α Q} {q : Q} {rest heard toServer toCaller : List α}
    {log : List (Entry Q R E)} (hserver : server ≠ .gone)
    (h : Inv w C P ⟨server, .calling q rest heard, toServer, toCaller, log⟩)
    (hstep : ∀ x rest', rest = x :: rest' →
      Inv w C P ⟨server, .calling q rest' heard, toServer ++ [x], toCaller, log⟩) (e : E) :
    (Link.write w ⟨server, .calling q rest heard, toServer, toCaller, log⟩ e).Inv w C P := by
  cases rest with
  | nil => exact h
  | cons x rest =>
      have hwrite : Link.write w ⟨server, .calling q (x :: rest) heard, toServer, toCaller, log⟩ e =
          if toServer.length < w.room then
            ⟨server, .calling q rest heard, toServer ++ [x], toCaller, log⟩
          else ⟨server, .calling q (x :: rest) heard, toServer, toCaller, log⟩ := by
        cases server with
        | gone => exact absurd rfl hserver
        | _ => rfl
      rw [hwrite]
      split
      · exact hstep x rest rfl
      · exact h

theorem write (h : link.Inv w C P) (e : E) : (link.write w e).Inv w C P := by
  have hsame := h
  have hfailed {log q serving} {toServer toCaller : List α} (before : Served w C P serving log)
      (called : C q) : Inv w C P ⟨.gone, .idle, toServer, toCaller,
        log ++ [.called q] ++ [.returned q (.error e)]⟩ := by
    rw [List.append_assoc]
    exact .finished (.failed before called)
  cases h with
  | absent | resting | closing | finished | handling | answering | answered | brokenHandling
  | brokenAnswering => exact hsame
  | asking before called line unfinished short =>
      refine write_of (fun h => by cases h) hsame (fun x rest hrest => ?_) e
      refine .asking before called ?_ unfinished short
      rw [← line, hrest, List.append_assoc, List.append_assoc, List.append_assoc,
        List.singleton_append]
  | refusing before called long line unfinished unsaid =>
      exact write_of (fun h => by cases h) hsame
        (fun _ _ _ => .refusing before called long line unfinished unsaid) e
  | refused before called long line unfinished =>
      exact write_of (fun h => by cases h) hsame
        (fun _ _ _ => .refused before called long line unfinished) e
  | unheard before called =>
      exact write_of (fun h => by cases h) hsame (fun _ _ _ => .unheard before called) e
  | @broken log q rest =>
      cases rest with
      | nil => exact hsame
      | cons x rest => exact hfailed ‹_› ‹_›
  | @brokenRefusing log q rest heard toServer toCaller before called =>
      cases rest with
      | nil => exact hsame
      | cons x rest => exact hfailed before called

/-! ### Reading -/

section

variable [DecidableEq α] {server : Server α Q} {q : Q} {heard toServer toCaller : List α}
  {log : List (Entry Q R E)}

/-- The next element of an answer that stands in the stream is read. -/
theorem read_of {r : R} {x : α} {rest : List α} (hr : w.CarriesReply r)
    (hline : heard ++ x :: rest <+: w.replyLine r)
    (hend : heard ++ x :: rest = w.replyLine r → rest = [] →
      Inv w C P ⟨server, .idle, toServer, rest, log ++ [.returned q (.ok r)]⟩)
    (hmore : w.stop ∉ heard ++ [x] →
      Inv w C P ⟨server, .calling q [] (heard ++ [x]), toServer, rest, log⟩)
    (hunfinished : w.stop ∉ heard) (e : E) :
    (Link.read w ⟨server, .calling q [] heard, toServer, x :: rest, log⟩ e).Inv w C P := by
  obtain ⟨more, hmore'⟩ := hline
  have hlength := congrArg List.length hmore'
  by_cases hx : x = w.stop
  · subst hx
    rw [List.append_assoc, List.cons_append] at hmore'
    obtain ⟨hbody, hnil⟩ := end_of_line hr.stop hmore'
    obtain ⟨rfl, rfl⟩ := List.append_eq_nil_iff.mp hnil
    have hread : w.readReply (heard ++ [w.stop]) = .ok r := by
      rw [hbody]
      exact hr.read
    have hwhole : heard ++ [w.stop] = w.replyLine r := by rw [hbody]; rfl
    show Inv w C P (if _ then _ else _)
    rw [if_pos (Or.inl rfl)]
    unfold finish
    rw [hread]
    exact hend hwhole rfl
  · have hfits := hr.fits
    have hshort : ¬ (heard ++ [x]).length = w.replyLimit + 1 := by
      simp only [List.length_append, List.length_cons, List.length_nil] at hlength ⊢
      omega
    show Inv w C P (if _ then _ else _)
    rw [if_neg (not_or.mpr ⟨hx, hshort⟩)]
    exact hmore fun hmem => (List.mem_append.mp hmem).elim hunfinished
      fun h => hx (List.mem_singleton.mp h).symm

/-- The stream has ended before the line has. -/
theorem read_gone (hw : w.Sound C P)
    (hend : ∀ e, Inv w C P ⟨.gone, .idle, toServer, [], log ++ [.returned q (.error e)]⟩)
    (hunfinished : w.stop ∉ heard) (e : E) :
    (Link.read w ⟨.gone, .calling q [] heard, toServer, [], log⟩ e).Inv w C P := by
  cases heard with
  | nil => exact hend e
  | cons x heard =>
      show Inv w C P (finish _ q (w.readReply (x :: heard)))
      unfold finish
      cases hread : w.readReply (x :: heard) with
      | error e => exact hend e
      | ok r => exact absurd (hw.readReply_part _ r hread) hunfinished

theorem read {link : Link α Q R E} (hw : w.Sound C P) (h : link.Inv w C P) (e : E) :
    (link.read w e).Inv w C P := by
  have hsame := h
  cases h with
  | absent | resting | closing | finished | handling => exact hsame
  | @asking _ _ rest => cases rest <;> exact hsame
  | @unheard _ _ rest => cases rest <;> exact hsame
  | @answering log q r heard toCaller rest before called answer line unfinished more =>
      cases toCaller with
      | nil => exact hsame
      | cons x toCaller =>
          refine read_of (hw.answer q r answer) ⟨rest, line⟩ (fun hall _ => ?_)
            (fun hmore => .answering before called answer ?_ hmore more) unfinished e
          · rw [hall] at line
            exact absurd (List.append_right_eq_self.mp line) more
          · rw [← line, List.append_assoc heard]
            rfl
  | @answered log q r heard toCaller before called answer line unfinished =>
      cases toCaller with
      | nil => exact hsame
      | cons x toCaller =>
          refine read_of (hw.answer q r answer) ⟨[], by rw [List.append_nil, line]⟩
            (fun _ hnil => ?_) (fun hmore => .answered before called answer ?_ hmore) unfinished e
          · rw [hnil, List.append_assoc]
            exact .resting (.answered before called answer)
          · rw [← line, List.append_assoc]
            rfl
  | @refusing log q rest heard toServer toCaller more before called long line unfinished unsaid =>
      rcases rest with _ | ⟨y, rest⟩
      · cases toCaller with
        | nil => exact hsame
        | cons x toCaller =>
            refine read_of hw.refusal ⟨more, line⟩ (fun hall _ => ?_)
              (fun hmore => .refusing before called long ?_ hmore unsaid) unfinished e
            · rw [hall] at line
              exact absurd (List.append_right_eq_self.mp line) unsaid
            · rw [← line, List.append_assoc heard]
              rfl
      · exact hsame
  | @refused log q rest heard toServer toCaller before called long line unfinished =>
      rcases rest with _ | ⟨y, rest⟩
      · cases toCaller with
        | nil => exact hsame
        | cons x toCaller =>
            refine read_of hw.refusal ⟨[], by rw [List.append_nil, line]⟩
              (fun _ hnil => ?_) (fun hmore => .refused before called long ?_ hmore) unfinished e
            · rw [hnil, List.append_assoc]
              exact .closing (.refused before called long)
            · rw [← line, List.append_assoc]
              rfl
      · exact hsame
  | @broken log q rest toServer toCaller serving before called silent =>
      rcases rest with _ | ⟨y, rest⟩
      · rw [silent rfl]
        refine read_gone hw (fun e => ?_) List.not_mem_nil e
        rw [List.append_assoc]
        exact .finished (.failed before called)
      · exact hsame
  | @brokenRefusing log q rest heard toServer toCaller before called long line unfinished =>
      rcases rest with _ | ⟨y, rest⟩
      · cases toCaller with
        | nil =>
            refine read_gone hw (fun e => ?_) unfinished e
            rw [List.append_assoc]
            exact .finished (.failed before called)
        | cons x toCaller =>
            refine read_of hw.refusal line (fun _ hnil => ?_)
              (fun hmore => .brokenRefusing before called long ?_ hmore) unfinished e
            · rw [hnil, List.append_assoc]
              exact .finished (.refused before called long)
            · rwa [List.append_assoc]
      · exact hsame
  | brokenHandling before called =>
      refine read_gone hw (fun e => ?_) List.not_mem_nil e
      rw [List.append_assoc]
      exact .finished (.dropped before called)
  | @brokenAnswering log q r heard toCaller before called answer line unfinished =>
      cases toCaller with
      | nil =>
          refine read_gone hw (fun e => ?_) unfinished e
          rw [List.append_assoc]
          exact .finished (.lost before called answer)
      | cons x toCaller =>
          refine read_of (hw.answer q r answer) line (fun _ hnil => ?_)
            (fun hmore => .brokenAnswering before called answer ?_ hmore) unfinished e
          · rw [hnil, List.append_assoc]
            exact .finished (.answered before called answer)
          · rwa [List.append_assoc]

end

/-! ### The server -/

section

variable [DecidableEq α]

theorem listen (hw : w.Sound C P) (h : link.Inv w C P) : (link.listen w).Inv w C P := by
  have hsame := h
  cases h with
  | absent | resting | closing | finished | handling | answering | answered | refusing | refused
  | unheard | broken | brokenRefusing | brokenHandling | brokenAnswering => exact hsame
  | @asking log q rest heard toServer before called line unfinished short =>
      cases toServer with
      | nil => exact hsame
      | cons x toServer =>
          have hlength := congrArg List.length line
          simp only [List.length_append, List.length_cons] at hlength
          have hq := hw.call q called
          show Inv w C P (if _ then _ else _)
          by_cases hlong : (heard ++ [x]).length = w.askLimit + 1
          · rw [if_pos (Or.inr hlong)]
            have hnone : w.readAsk (heard ++ [x]) = none := hw.readAsk_long _ (by omega)
            simp only [hnone]
            refine .refusing before called ?_ rfl List.not_mem_nil (List.concat_ne_nil _ _)
            rw [List.length_append, List.length_singleton] at hlong
            omega
          have hshort : (heard ++ [x]).length ≤ w.askLimit := by
            rw [List.length_append, List.length_singleton] at hlong ⊢
            omega
          by_cases hx : x = w.stop
          · subst hx
            rw [if_pos (Or.inl rfl)]
            rw [List.append_assoc, List.cons_append] at line
            obtain ⟨hbody, hnil⟩ := end_of_line hq.stop line
            obtain ⟨rfl, rfl⟩ := List.append_eq_nil_iff.mp hnil
            have hwhole : heard ++ [w.stop] = w.askLine q := by rw [hbody]; rfl
            rw [hwhole] at hshort ⊢
            simp only [hq.read hshort]
            rw [List.append_assoc]
            exact .handling before called
          · rw [if_neg (not_or.mpr ⟨hx, hlong⟩)]
            refine .asking before called ?_ ?_ hshort
            · rw [← line, List.append_assoc heard]
              rfl
            · exact fun hmem => (List.mem_append.mp hmem).elim unfinished
                fun h => hx (List.mem_singleton.mp h).symm

end

theorem handle (h : link.Inv w C P) {answer : Q → R} (hanswer : ∀ q, C q → P q (answer q)) :
    (link.handle w answer).Inv w C P := by
  have hsame := h
  cases h with
  | absent | resting | closing | finished | asking | answering | answered | refusing | refused
  | unheard | broken | brokenRefusing | brokenHandling | brokenAnswering => exact hsame
  | @handling log q before called =>
      show Inv w C P ⟨_, _, _, _, _⟩
      rw [List.append_assoc]
      exact .answering before called (hanswer q called) rfl List.not_mem_nil
        (List.concat_ne_nil _ _)

theorem speak (h : link.Inv w C P) : (link.speak w).Inv w C P := by
  have hsame := h
  cases h with
  | absent | resting | closing | finished | asking | handling | answered | refused | unheard
  | broken | brokenRefusing | brokenHandling | brokenAnswering => exact hsame
  | @answering log q r heard toCaller rest before called answer line unfinished more =>
      rcases rest with _ | ⟨x, _ | ⟨y, rest⟩⟩
      · exact absurd rfl more
      · show Inv w C P (if _ then _ else _)
        split
        · refine .answered before called answer ?_ unfinished
          rw [← line, List.append_assoc]
        · exact hsame
      · show Inv w C P (if _ then _ else _)
        split
        · refine .answering before called answer ?_ unfinished (List.cons_ne_nil y rest)
          rw [← line, List.append_assoc, List.append_assoc, List.append_assoc]
          rfl
        · exact hsame
  | @refusing log q rest heard toServer toCaller more before called long line unfinished unsaid =>
      rcases more with _ | ⟨x, _ | ⟨y, more⟩⟩
      · exact absurd rfl unsaid
      · show Inv w C P (if _ then _ else _)
        split
        · refine .refused before called long ?_ unfinished
          rw [← line, List.append_assoc]
        · exact hsame
      · show Inv w C P (if _ then _ else _)
        split
        · refine .refusing before called long ?_ unfinished (List.cons_ne_nil y more)
          rw [← line, List.append_assoc, List.append_assoc, List.append_assoc]
          rfl
        · exact hsame

theorem leave (h : link.Inv w C P) : link.leave.Inv w C P := by
  have hsame := h
  cases h with
  | absent | resting | finished | asking | handling | answering | answered | refusing | broken
  | brokenRefusing | brokenHandling | brokenAnswering => exact hsame
  | closing before => exact .finished before
  | refused before called long line unfinished =>
      exact .brokenRefusing before called long (line ▸ List.prefix_refl _) unfinished
  | unheard before called => exact .broken before called fun _ => rfl

theorem die (h : link.Inv w C P) : link.die.Inv w C P := by
  have hsame := h
  cases h with
  | absent | finished | broken | brokenRefusing | brokenHandling | brokenAnswering => exact hsame
  | resting before => exact .finished before
  | closing before => exact .finished before
  | asking before called => exact .broken before called fun _ => rfl
  | handling before called => exact .brokenHandling before called
  | answering before called answer line unfinished =>
      exact .brokenAnswering before called answer ⟨_, line⟩ unfinished
  | answered before called answer line unfinished =>
      exact .brokenAnswering before called answer (line ▸ List.prefix_refl _) unfinished
  | refusing before called long line unfinished =>
      exact .brokenRefusing before called long ⟨_, line⟩ unfinished
  | refused before called long line unfinished =>
      exact .brokenRefusing before called long (line ▸ List.prefix_refl _) unfinished
  | unheard before called => exact .broken before called fun _ => rfl

end Link.Inv

/-! ## Runs -/

namespace Link

variable {α Q R E : Type*} [DecidableEq α] {w : Wire α Q R E} {C : Q → Prop} {P : Q → R → Prop}

theorem Inv.turn {link : Link α Q R E} (hw : w.Sound C P) (h : link.Inv w C P)
    {t : Turn Q R E} (ht : t.Keeps C P) : (link.turn w t).Inv w C P := by
  cases t with
  | call q found => exact h.call ht found
  | write e => exact h.write e
  | read e => exact h.read hw e
  | listen => exact h.listen hw
  | handle answer => exact h.handle ht
  | speak => exact h.speak
  | leave => exact h.leave
  | die => exact h.die

theorem Inv.run {link : Link α Q R E} (hw : w.Sound C P) (h : link.Inv w C P)
    (turns : List (Turn Q R E)) (hturns : ∀ t ∈ turns, t.Keeps C P) :
    (link.run w turns).Inv w C P := by
  induction turns using List.reverseRecOn with
  | nil => exact h
  | append_singleton turns t ih =>
      rw [List.forall_mem_append, List.forall_mem_singleton] at hturns
      have hrun : link.run w (turns ++ [t]) = (link.run w turns).turn w t := List.foldl_append
      rw [hrun]
      exact (ih hturns.1).turn hw hturns.2

end Link

/-- A call that has not returned. -/
inductive UnderWay {α Q R E : Type*} (P : Q → R → Prop) :
    Caller α Q → List (Entry Q R E) → Prop
  | none : UnderWay P .idle []
  | called {q rest heard} : UnderWay P (.calling q rest heard) [.called q]
  | accepted {q heard} : UnderWay P (.calling q [] heard) [.called q, .accepted q]
  | answered {q r heard} (answer : P q r) :
      UnderWay P (.calling q [] heard) [.called q, .accepted q, .answered q r]

theorem UnderWay.mono {α Q R E : Type*} {P P' : Q → R → Prop} (hP : ∀ q r, P q r → P' q r)
    {caller : Caller α Q} {log : List (Entry Q R E)} (h : UnderWay P caller log) :
    UnderWay P' caller log := by
  cases h with
  | none => exact .none
  | called => exact .called
  | accepted => exact .accepted
  | answered answer => exact .answered (hP _ _ answer)

namespace Link

variable {α Q R E : Type*} [DecidableEq α] {w : Wire α Q R E} {C : Q → Prop} {P : Q → R → Prop}
  {link : Link α Q R E}

omit [DecidableEq α] in
theorem Inv.served (h : link.Inv w C P) : ∃ serving log underWay, link.log = log ++ underWay ∧
    Served w C P serving log ∧ UnderWay P link.caller underWay := by
  cases h with
  | absent before => exact ⟨_, _, _, (List.append_nil _).symm, before, .none⟩
  | resting before => exact ⟨_, _, _, (List.append_nil _).symm, before, .none⟩
  | closing before => exact ⟨_, _, _, (List.append_nil _).symm, before, .none⟩
  | finished before => exact ⟨_, _, _, (List.append_nil _).symm, before, .none⟩
  | asking before => exact ⟨_, _, _, rfl, before, .called⟩
  | handling before => exact ⟨_, _, _, rfl, before, .accepted⟩
  | answering before _ answer => exact ⟨_, _, _, rfl, before, .answered answer⟩
  | answered before _ answer => exact ⟨_, _, _, rfl, before, .answered answer⟩
  | refusing before => exact ⟨_, _, _, rfl, before, .called⟩
  | refused before => exact ⟨_, _, _, rfl, before, .called⟩
  | unheard before => exact ⟨_, _, _, rfl, before, .called⟩
  | broken before => exact ⟨_, _, _, rfl, before, .called⟩
  | brokenRefusing before => exact ⟨_, _, _, rfl, before, .called⟩
  | brokenHandling before => exact ⟨_, _, _, rfl, before, .accepted⟩
  | brokenAnswering before _ answer => exact ⟨_, _, _, rfl, before, .answered answer⟩

/-- **The calls of a run**, whoever is slow and whenever a server ends. -/
theorem run_served (hw : w.Sound C P) (turns : List (Turn Q R E))
    (hturns : ∀ t ∈ turns, t.Keeps C P) :
    ∃ serving log underWay, (new.run w turns : Link α Q R E).log = log ++ underWay ∧
      Served w C P serving log ∧ UnderWay P (new.run w turns : Link α Q R E).caller underWay :=
  (Inv.new.run hw turns hturns).served

/-! ## Nobody waits for ever -/

/-- A step of a call under way. -/
def Advance (w : Wire α Q R E) (after before : Link α Q R E) : Prop :=
  ∃ t : Turn Q R E, (∀ q found, t ≠ .call q found) ∧ after = before.turn w t ∧ after ≠ before

end Link

def Caller.unwritten {α Q : Type*} : Caller α Q → ℕ
  | .idle => 0
  | .calling _ rest _ => rest.length

def Caller.busy {α Q : Type*} : Caller α Q → ℕ
  | .idle => 0
  | .calling .. => 1

def Server.rank {α Q : Type*} : Server α Q → ℕ
  | .absent | .gone => 0
  | .listening _ | .leaving => 1
  | .answering _ | .refusing _ => 2
  | .handling _ => 3

def Server.unsaid {α Q : Type*} : Server α Q → ℕ
  | .answering rest | .refusing rest => rest.length
  | _ => 0

namespace Link

variable {α Q R E : Type*} [DecidableEq α] {w : Wire α Q R E} {C : Q → Prop} {P : Q → R → Prop}
  {link : Link α Q R E}

/-- What is still to be done: for the call first, then for the answer. -/
def effort (link : Link α Q R E) : ℕ × ℕ × ℕ :=
  (2 * link.caller.unwritten + link.toServer.length, link.server.rank + link.caller.busy,
    2 * link.server.unsaid + link.toCaller.length)

def Less : ℕ × ℕ × ℕ → ℕ × ℕ × ℕ → Prop := Prod.Lex (· < ·) (Prod.Lex (· < ·) (· < ·))

theorem less_of {a b c a' b' c' : ℕ} (h : a < a' ∨ a = a' ∧ (b < b' ∨ b = b' ∧ c < c')) :
    Less (a, b, c) (a', b', c') := by
  rcases h with h | ⟨rfl, h | ⟨rfl, h⟩⟩
  · exact Prod.Lex.left _ _ h
  · exact Prod.Lex.right _ (Prod.Lex.left _ _ h)
  · exact Prod.Lex.right _ (Prod.Lex.right _ h)

section

variable (server : Server α Q) (caller : Caller α Q) (toServer toCaller : List α)
  (log : List (Entry Q R E))

omit [DecidableEq α] in
theorem effort_write (e : E) :
    Link.write w ⟨server, caller, toServer, toCaller, log⟩ e =
        ⟨server, caller, toServer, toCaller, log⟩ ∨
      Less (Link.write w ⟨server, caller, toServer, toCaller, log⟩ e).effort
        (effort ⟨server, caller, toServer, toCaller, log⟩) := by
  rcases caller with _ | ⟨q, _ | ⟨x, rest⟩, heard⟩
  · exact Or.inl rfl
  · exact Or.inl rfl
  · unfold Link.write
    dsimp only
    split
    · refine Or.inr (less_of (Or.inl ?_))
      show 2 * 0 + toServer.length < 2 * (rest.length + 1) + toServer.length
      omega
    · split
      · refine Or.inr (less_of (Or.inl ?_))
        show 2 * rest.length + (toServer ++ [x]).length < 2 * (rest.length + 1) + toServer.length
        rw [List.length_append, List.length_singleton]
        omega
      · exact Or.inl rfl

theorem effort_read (e : E) :
    Link.read w ⟨server, caller, toServer, toCaller, log⟩ e =
        ⟨server, caller, toServer, toCaller, log⟩ ∨
      Less (Link.read w ⟨server, caller, toServer, toCaller, log⟩ e).effort
        (effort ⟨server, caller, toServer, toCaller, log⟩) := by
  rcases caller with _ | ⟨q, _ | ⟨x, rest⟩, heard⟩
  · exact Or.inl rfl
  · -- a call that returns is no longer busy
    have hidle (toCaller' : List α) (log' : List (Entry Q R E)) :
        Less (effort ⟨server, .idle, toServer, toCaller', log'⟩)
          (effort ⟨server, .calling q [] heard, toServer, toCaller, log⟩) :=
      less_of (Or.inr ⟨rfl, Or.inl (Nat.lt_succ_self _)⟩)
    cases toCaller with
    | cons x toCaller =>
        show (if _ then _ else _) = _ ∨ Less (effort (if _ then _ else _)) _
        split
        · exact Or.inr (hidle _ _)
        · exact Or.inr (less_of (Or.inr ⟨rfl, Or.inr ⟨rfl, Nat.lt_succ_self _⟩⟩))
    | nil =>
        cases server with
        | gone =>
            cases heard with
            | nil => exact Or.inr (hidle _ _)
            | cons y heard => exact Or.inr (hidle _ _)
        | _ => exact Or.inl rfl
  · exact Or.inl rfl

theorem effort_listen :
    Link.listen w ⟨server, caller, toServer, toCaller, log⟩ =
        ⟨server, caller, toServer, toCaller, log⟩ ∨
      Less (Link.listen w ⟨server, caller, toServer, toCaller, log⟩).effort
        (effort ⟨server, caller, toServer, toCaller, log⟩) := by
  cases server with
  | listening heard =>
      cases toServer with
      | nil => exact Or.inl rfl
      | cons x toServer =>
          refine Or.inr ?_
          show Less (effort (if _ then _ else _)) _
          split
          · split <;> exact less_of (Or.inl (Nat.lt_succ_self _))
          · exact less_of (Or.inl (Nat.lt_succ_self _))
  | _ => exact Or.inl rfl

omit [DecidableEq α] in
theorem effort_speak :
    Link.speak w ⟨server, caller, toServer, toCaller, log⟩ =
        ⟨server, caller, toServer, toCaller, log⟩ ∨
      Less (Link.speak w ⟨server, caller, toServer, toCaller, log⟩).effort
        (effort ⟨server, caller, toServer, toCaller, log⟩) := by
  have hsay (x : α) (server' : Server α Q)
      (hless : server'.rank < server.rank ∨
        server'.rank = server.rank ∧ server'.unsaid + 1 = server.unsaid) :
      Link.say w ⟨server, caller, toServer, toCaller, log⟩ x server' =
          ⟨server, caller, toServer, toCaller, log⟩ ∨
        Less (Link.say w ⟨server, caller, toServer, toCaller, log⟩ x server').effort
          (effort ⟨server, caller, toServer, toCaller, log⟩) := by
    unfold Link.say
    split
    · refine Or.inr (less_of (Or.inr ⟨rfl, ?_⟩))
      dsimp only
      rw [List.length_append, List.length_singleton]
      omega
    · exact Or.inl rfl
  cases server with
  | answering rest =>
      rcases rest with _ | ⟨x, _ | ⟨y, rest⟩⟩
      · exact Or.inl rfl
      · exact hsay x _ (Or.inl (Nat.lt_succ_self 1))
      · exact hsay x _ (Or.inr ⟨rfl, rfl⟩)
  | refusing rest =>
      rcases rest with _ | ⟨x, _ | ⟨y, rest⟩⟩
      · exact Or.inl rfl
      · exact hsay x _ (Or.inl (Nat.lt_succ_self 1))
      · exact hsay x _ (Or.inr ⟨rfl, rfl⟩)
  | _ => exact Or.inl rfl

omit [DecidableEq α] in
theorem effort_server {server' : Server α Q} {log' : List (Entry Q R E)}
    (hrank : server'.rank < server.rank) :
    Less (effort ⟨server', caller, toServer, toCaller, log'⟩)
      (effort ⟨server, caller, toServer, toCaller, log⟩) :=
  less_of (Or.inr ⟨rfl, Or.inl (Nat.add_lt_add_right hrank _)⟩)

end

theorem effort_turn (link : Link α Q R E) {t : Turn Q R E} (ht : ∀ q found, t ≠ .call q found) :
    link.turn w t = link ∨ Less (link.turn w t).effort link.effort := by
  obtain ⟨server, caller, toServer, toCaller, log⟩ := link
  cases t with
  | call q found => exact absurd rfl (ht q found)
  | write e => exact effort_write server caller toServer toCaller log e
  | read e => exact effort_read server caller toServer toCaller log e
  | listen => exact effort_listen server caller toServer toCaller log
  | handle answer =>
      cases server with
      | handling q => exact Or.inr (effort_server _ _ _ _ _ (Nat.lt_succ_self 2))
      | _ => exact Or.inl rfl
  | speak => exact effort_speak server caller toServer toCaller log
  | leave =>
      cases server with
      | leaving => exact Or.inr (effort_server _ _ _ _ _ (Nat.lt_succ_self 0))
      | _ => exact Or.inl rfl
  | die =>
      cases server with
      | absent | gone => exact Or.inl rfl
      | listening heard => exact Or.inr (effort_server _ _ _ _ _ (Nat.succ_pos 0))
      | handling q => exact Or.inr (effort_server _ _ _ _ _ (Nat.succ_pos 2))
      | answering rest => exact Or.inr (effort_server _ _ _ _ _ (Nat.succ_pos 1))
      | refusing rest => exact Or.inr (effort_server _ _ _ _ _ (Nat.succ_pos 1))
      | leaving => exact Or.inr (effort_server _ _ _ _ _ (Nat.succ_pos 0))

/-- Only a call makes a caller busy. -/
theorem idle_turn {link : Link α Q R E} (hidle : link.caller = .idle) {t : Turn Q R E}
    (ht : ∀ q found, t ≠ .call q found) : (link.turn w t).caller = .idle := by
  obtain ⟨server, caller, toServer, toCaller, log⟩ := link
  obtain rfl : caller = .idle := hidle
  cases t with
  | call q found => exact absurd rfl (ht q found)
  | write e => rfl
  | read e => rfl
  | listen =>
      show (Link.listen w _).caller = _
      unfold Link.listen
      split
      · dsimp only
        split
        · split <;> rfl
        · rfl
      · rfl
  | handle answer => cases server <;> rfl
  | speak =>
      show (Link.speak w _).caller = _
      unfold Link.speak Link.say
      split
      · split <;> rfl
      · split <;> rfl
      · rfl
  | leave => cases server <;> rfl
  | die => cases server <;> rfl

/-- **No call goes on for ever.** -/
theorem wellFounded_advance :
    WellFounded (Advance w : Link α Q R E → Link α Q R E → Prop) := by
  refine Subrelation.wf (r := InvImage Less effort) ?_ (InvImage.wf effort
    (wellFounded_lt.prod_lex (wellFounded_lt.prod_lex wellFounded_lt)))
  rintro after before ⟨t, ht, rfl, hne⟩
  exact (effort_turn before ht).resolve_left hne

section

variable {server : Server α Q} {q : Q} {x : α} {rest heard toServer toCaller : List α}
  {log : List (Entry Q R E)} (e : E)

theorem read_moves : Link.read w ⟨server, .calling q [] heard, toServer, x :: toCaller, log⟩ e ≠
    ⟨server, .calling q [] heard, toServer, x :: toCaller, log⟩ := by
  have htaken : toCaller =
      (Link.read w ⟨server, .calling q [] heard, toServer, x :: toCaller, log⟩ e).toCaller := by
    show _ = (if _ then _ else _ : Link α Q R E).toCaller
    split <;> rfl
  intro heq
  rw [heq] at htaken
  exact List.cons_ne_self x toCaller htaken.symm

theorem read_returns (w : Wire α Q R E) (heard : List α) :
    Link.read w ⟨.gone, .calling q [] heard, toServer, [], log⟩ e ≠
      ⟨.gone, .calling q [] heard, toServer, [], log⟩ := by
  cases heard <;> exact fun heq => by cases congrArg Link.caller heq

omit [DecidableEq α] in
theorem say_moves {server' : Server α Q} (hroom : toCaller.length < w.room) {caller : Caller α Q} :
    Link.say w ⟨server, caller, toServer, toCaller, log⟩ x server' ≠
      ⟨server, caller, toServer, toCaller, log⟩ := by
  unfold Link.say
  rw [if_pos hroom]
  intro heq
  have hlength := congrArg (fun link => link.toCaller.length) heq
  rw [List.length_append] at hlength
  exact absurd hlength (Nat.ne_of_gt (Nat.lt_succ_self _))

end

/-- **Neither waits for the other**: one of them can go on. -/
theorem Inv.advances (h : link.Inv w C P) (hcalling : link.caller ≠ .idle)
    (hroom : (w.replyLine w.refusal).length ≤ w.room) (answer : Q → R) (e e' : E) :
    ∃ t ∈ [.write e, .read e', .listen, .handle answer, .speak, .leave], link.turn w t ≠ link := by
  have hpositive : 0 < w.room := by
    rw [Wire.replyLine, List.length_append, List.length_singleton] at hroom
    omega
  cases h with
  | absent | resting | closing | finished => exact absurd rfl hcalling
  | @asking log q rest heard toServer before called line unfinished short =>
      cases toServer with
      | cons x toServer =>
          refine ⟨.listen, by simp, fun heq => ?_⟩
          have htaken : (Link.turn w ⟨.listening heard, .calling q rest [], x :: toServer, [],
              log ++ [.called q]⟩ (.listen : Turn Q R E)).toServer = toServer := by
            show (if _ then _ else _ : Link α Q R E).toServer = _
            split
            · split <;> rfl
            · rfl
          rw [heq] at htaken
          exact List.cons_ne_self x toServer htaken
      | nil =>
          rw [List.append_nil] at line
          obtain ⟨x, rest, rfl⟩ := List.exists_cons_of_ne_nil (ne_nil_of_line unfinished line)
          refine ⟨.write e, by simp, ?_⟩
          have hwrite : Link.turn w ⟨.listening heard, .calling q (x :: rest) [], [], [],
              log ++ [.called q]⟩ (.write e : Turn Q R E) =
              ⟨.listening heard, .calling q rest [], [x], [], log ++ [.called q]⟩ :=
            if_pos hpositive
          rw [hwrite]
          exact fun heq => by cases congrArg Link.toServer heq
  | handling => exact ⟨.handle answer, by simp, fun heq => by cases congrArg Link.server heq⟩
  | @answering log q r heard toCaller rest before called answer line unfinished more =>
      cases toCaller with
      | cons x toCaller => exact ⟨.read e', by simp, read_moves e'⟩
      | nil =>
          refine ⟨.speak, by simp, ?_⟩
          rcases rest with _ | ⟨x, rest⟩
          · exact absurd rfl more
          · exact say_moves (show ([] : List α).length < w.room from hpositive)
  | @answered log q r heard toCaller before called answer line unfinished =>
      obtain ⟨x, toCaller, rfl⟩ := List.exists_cons_of_ne_nil (ne_nil_of_line unfinished line)
      exact ⟨.read e', by simp, read_moves e'⟩
  | @refusing log q rest heard toServer toCaller more before called long line unfinished unsaid =>
      refine ⟨.speak, by simp, ?_⟩
      rcases more with _ | ⟨x, more⟩
      · exact absurd rfl unsaid
      · have hlength := congrArg List.length line
        simp only [List.length_append, List.length_cons] at hlength
        exact say_moves (by omega)
  | refused => exact ⟨.leave, by simp, fun heq => by cases congrArg Link.server heq⟩
  | unheard => exact ⟨.leave, by simp, fun heq => by cases congrArg Link.server heq⟩
  | @broken log q rest toServer toCaller serving before called silent =>
      cases rest with
      | cons x rest => exact ⟨.write e, by simp, fun heq => by cases congrArg Link.caller heq⟩
      | nil =>
          rw [silent rfl]
          exact ⟨.read e', by simp, read_returns e' w []⟩
  | @brokenRefusing log q rest heard toServer toCaller =>
      cases rest with
      | cons x rest => exact ⟨.write e, by simp, fun heq => by cases congrArg Link.caller heq⟩
      | nil =>
          cases toCaller with
          | cons x toCaller => exact ⟨.read e', by simp, read_moves e'⟩
          | nil => exact ⟨.read e', by simp, read_returns e' w _⟩
  | brokenHandling => exact ⟨.read e', by simp, read_returns e' w []⟩
  | @brokenAnswering log q r heard toCaller =>
      cases toCaller with
      | cons x toCaller => exact ⟨.read e', by simp, read_moves e'⟩
      | nil => exact ⟨.read e', by simp, read_returns e' w _⟩

end Link
end Interaction
