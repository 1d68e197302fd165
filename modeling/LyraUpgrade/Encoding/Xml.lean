import Mathlib.Data.List.Basic
import Mathlib.Data.List.Induction
import Mathlib.Tactic.Common

/-!
# XML as a pull parser reports it

A document is the list of events a pull parser hands out, in order; the end of the list is
the end of the input.  What the parser itself refuses is an event of its own
(`Event.malformed`), and a value it cannot decode is `none`, so that a reader of the events
has to say what it does with either.

Attributes are kept as they are written: a reader that looks for one of them walks over
the others (`Element.get?`), and meets the first malformed one before those behind it.

## Main definitions

* `Element`, `Event` — what a parser reports.
* `path` — the names of the open elements, the innermost first.
* `Within` — an element that is reported while certain elements are open.
-/

namespace Encoding.Xml

/-- The namespace a prefix stands for. -/
inductive Namespace
  | bound (uri : String)
  | unbound
  | undeclared
  deriving DecidableEq, Repr

inductive Attribute
  /-- Not an attribute, or one that was there already. -/
  | malformed
  | entry (key : String) (value : Option String)
  deriving DecidableEq, Repr

structure Element where
  /-- The name as it is written, with its prefix. -/
  name : String
  localName : String
  uri : Namespace
  attributes : List Attribute
  deriving DecidableEq, Repr

inductive Event
  | start (element : Element)
  | empty (element : Element)
  | close (name : String)
  | text (content : Option String)
  | cdata (content : Option String)
  /-- A reference, with what it stands for. -/
  | reference (content : Option String)
  | docType
  /-- Declarations, comments and processing instructions. -/
  | other
  | malformed
  deriving DecidableEq, Repr

/-- The element an event opens, closed at once or not. -/
def Event.element? : Event → Option Element
  | .start element => some element
  | .empty element => some element
  | _ => none

/-! ## Attributes -/

/-- Why an attribute cannot be read. -/
inductive AttributeError
  | malformed
  | undecodable
  deriving DecidableEq, Repr

/-- The first attribute of a name. -/
def findAttribute (name : String) : List Attribute → Except AttributeError (Option String)
  | [] => .ok none
  | .malformed :: _ => .error .malformed
  | .entry key value :: attributes =>
      if key = name then
        match value with
        | none => .error .undecodable
        | some value => .ok (some value)
      else findAttribute name attributes

def Element.get? (self : Element) (name : String) : Except AttributeError (Option String) :=
  findAttribute name self.attributes

/-! ## Open elements -/

/-- What an event does to the open elements. -/
def Event.openElements (names : List String) : Event → List String
  | .start element => element.name :: names
  | .close _ => names.tail
  | _ => names

/-- The names of the elements that are open after some events, the innermost first. -/
def path (events : List Event) : List String := events.foldl Event.openElements []

@[simp] theorem path_nil : path [] = [] := rfl

theorem path_append_singleton (events : List Event) (event : Event) :
    path (events ++ [event]) = event.openElements (path events) := by
  simp [path]

/-- An element is reported while exactly the elements `names` are open. -/
def Within (events : List Event) (names : List String) (element : Element) : Prop :=
  ∃ before event after, events = before ++ event :: after ∧ event.element? = some element ∧
    path before = names

/-- What an event does to the open elements where each is closed by its own name. -/
def Event.nest (names : List String) : Event → Option (List String)
  | .start element => some (element.name :: names)
  | .close name => if names.head? = some name then some names.tail else none
  | _ => some names

/-- The elements that are open after some events, if none was closed by another name. -/
def nested (names : List String) (events : List Event) : Option (List String) :=
  events.foldlM Event.nest names

/-- Every element is closed, the inner ones before the outer ones. -/
def WellFormed (events : List Event) : Prop := nested [] events = some []

instance (events : List Event) : Decidable (WellFormed events) :=
  inferInstanceAs (Decidable (_ = _))

section

variable {events : List Event} {event : Event} {names : List String} {element : Element}

theorem not_within_nil : ¬ Within [] names element := by
  rintro ⟨before, event, after, h, -⟩
  simp at h

/-- One more event reports at most its own element. -/
theorem within_append_singleton :
    Within (events ++ [event]) names element ↔
      Within events names element ∨ (event.element? = some element ∧ path events = names) := by
  constructor
  · rintro ⟨before, e, after, hsplit, helement, hpath⟩
    rcases List.eq_nil_or_concat after with rfl | ⟨rest, last, rfl⟩
    · -- the element is the one of the last event
      obtain ⟨rfl, hlast⟩ := List.append_inj' hsplit rfl
      rw [List.singleton_inj] at hlast
      exact .inr ⟨hlast ▸ helement, hpath⟩
    · have hsame : events ++ [event] = (before ++ e :: rest) ++ [last] := by simpa using hsplit
      obtain ⟨rfl, -⟩ := List.append_inj' hsame rfl
      exact .inl ⟨before, e, rest, rfl, helement, hpath⟩
  · rintro (⟨before, e, after, rfl, helement, hpath⟩ | ⟨helement, hpath⟩)
    · exact ⟨before, e, after ++ [event], by simp, helement, hpath⟩
    · exact ⟨events, event, [], rfl, helement, hpath⟩

/-! ## Well-formed documents -/

theorem nested_append (names : List String) (xs ys : List Event) :
    nested names (xs ++ ys) = (nested names xs).bind fun names => nested names ys := by
  rw [nested, List.foldlM_append]
  rfl

/-- Names are opened and closed correctly wherever they are followed. -/
theorem path_of_nested (h : nested [] events = some names) : path events = names := by
  induction events using List.reverseRecOn generalizing names with
  | nil =>
      cases h
      rfl
  | append_singleton events event ih =>
      rw [nested_append] at h
      obtain ⟨before, hbefore, h⟩ := Option.bind_eq_some_iff.mp h
      rw [path_append_singleton, ih hbefore]
      simp only [nested, List.foldlM_cons, List.foldlM_nil] at h
      obtain ⟨after, hafter, h⟩ := Option.bind_eq_some_iff.mp h
      cases h
      cases event with
      | close name =>
          simp only [Event.nest] at hafter
          split_ifs at hafter
          cases hafter
          rfl
      | _ =>
          cases hafter
          rfl

/-- Elements around it make no difference to what is nested correctly in itself. -/
theorem nested_append_right {opened closed : List String} (outer : List String)
    (h : nested opened events = some closed) :
    nested (opened ++ outer) events = some (closed ++ outer) := by
  induction events generalizing opened with
  | nil =>
      cases h
      rfl
  | cons event events ih =>
      rw [nested, List.foldlM_cons] at h ⊢
      obtain ⟨next, hnext, hrest⟩ := Option.bind_eq_some_iff.mp h
      refine Option.bind_eq_some_iff.mpr ⟨next ++ outer, ?_, ih hrest⟩
      cases event with
      | close name =>
          simp only [Event.nest] at hnext ⊢
          split_ifs at hnext with hhead
          cases opened with
          | nil => cases hhead
          | cons first rest =>
              cases hnext
              simpa using hhead
      | _ =>
          cases hnext
          rfl

/-- Two neighbours that are well formed may exchange places. -/
theorem WellFormed.exchange {before a b after : List Event} (ha : WellFormed a)
    (hb : WellFormed b) (h : WellFormed (before ++ (a ++ (b ++ after)))) :
    WellFormed (before ++ (b ++ (a ++ after))) := by
  have hskip : ∀ {c : List Event}, WellFormed c → ∀ names rest,
      nested names (c ++ rest) = nested names rest := by
    intro c hc names rest
    rw [nested_append, show nested names c = some names from nested_append_right names hc,
      Option.bind_some]
  rw [WellFormed, nested_append] at h ⊢
  simp only [hskip ha, hskip hb] at h ⊢
  exact h

end

end Encoding.Xml
