import Mathlib

/-!
Line framed event streams. An event is the lines up to a blank line; a line ends
at a newline, and a carriage return before it does not count. A reader that
starts on a buffer finds the events that end in the buffer, and loses one whose
blank line is missing.
-/
namespace Arks.Frames

abbrev Line := List UInt8

/-- What a reader has of the event at hand: its finished lines and the bytes of
    the line it is in. -/
structure Scan where
  event : List Line
  line : Line
deriving DecidableEq

def Scan.start : Scan := ⟨[],[]⟩

/-- A line without its carriage return. -/
def dropCR (line : Line) : Line := if line.getLast? = some 13 then line.dropLast else line

/-- The end of a line: a blank line dispatches the event. -/
def Scan.endLine (s : Scan) : List (List Line) × Scan :=
  if dropCR s.line = [] then ([s.event],.start) else ([],⟨s.event ++ [dropCR s.line],[]⟩)

def Scan.byte (s : Scan) (b : UInt8) : List (List Line) × Scan :=
  if b = 10 then s.endLine else ([],⟨s.event,s.line ++ [b]⟩)

/-- The events that end in the buffer, and what is left of the next one. -/
def scan (s : Scan) : List UInt8 → List (List Line) × Scan
  | [] => ([],s)
  | b :: buffer => ((s.byte b).1 ++ (scan (s.byte b).2 buffer).1,(scan (s.byte b).2 buffer).2)

/-- The end of the buffer also ends a line that has bytes. -/
def Scan.finish (s : Scan) : List (List Line) := if s.line = [] then [] else s.endLine.1

/-- The events of a buffer. -/
def events (buffer : List UInt8) : List (List Line) := (scan .start buffer).1 ++ (scan .start buffer).2.finish

/-- The buffer ends where an event ends. -/
def Whole (buffer : List UInt8) : Prop := (scan .start buffer).2 = .start

instance (buffer : List UInt8) : Decidable (Whole buffer) := inferInstanceAs (Decidable (_ = _))

@[simp] theorem finish_start : Scan.start.finish = [] := rfl

private theorem scan_append (s : Scan) (a b : List UInt8) :
    scan s (a ++ b) = ((scan s a).1 ++ (scan (scan s a).2 b).1,(scan (scan s a).2 b).2) := by
  induction a generalizing s with
  | nil => simp [scan]
  | cons x a ih => simp [scan,ih]

@[simp] theorem events_nil : events [] = [] := rfl

/-- Between two events a buffer can be cut. -/
theorem events_append {a b : List UInt8} (whole : Whole a) : events (a ++ b) = events a ++ events b := by
  have left : (scan .start a).2 = .start := whole
  simp only [events,scan_append,left,finish_start,List.append_nil,List.append_assoc]

/-- A stream that is cut between events has the events of its pieces. -/
theorem events_flatten {pieces : List (List UInt8)} {last : List UInt8} (whole : ∀ piece ∈ pieces, Whole piece) :
    events ((pieces ++ [last]).flatten) = (pieces ++ [last]).flatMap events := by
  induction pieces with
  | nil => simp
  | cons piece pieces ih =>
    have rest := ih (fun p member => whole p (.tail _ member))
    simp only [List.cons_append,List.flatten_cons,List.flatMap_cons] at rest ⊢
    rw [events_append (whole piece List.mem_cons_self),rest]

/-- What becomes of one event. -/
inductive Reading (α : Type)
  | value (a : α)
  | nothing
  | failed (message : String)

/-- Read the events one by one, up to the first that fails. -/
def readAll {α : Type} (read : List Line → Reading α) : List (List Line) → List α × Option String
  | [] => ([],none)
  | e :: es =>
    match read e with
    | .value a => (a :: (readAll read es).1,(readAll read es).2)
    | .nothing => readAll read es
    | .failed message => ([],some message)

/-- The values of the events that have one. -/
def valuesOf {α : Type} (read : List Line → Reading α) (es : List (List Line)) : List α :=
  es.filterMap (fun e => match read e with | .value a => some a | _ => none)

def Valid {α : Type} (read : List Line → Reading α) (e : List Line) : Prop := ∀ message, read e ≠ .failed message

theorem readAll_valid {α : Type} {read : List Line → Reading α} {es : List (List Line)} (valid : ∀ e ∈ es, Valid read e) :
    readAll read es = (valuesOf read es,none) := by
  induction es with
  | nil => rfl
  | cons e es ih =>
    have rest := ih (fun x member => valid x (.tail _ member))
    cases outcome : read e with
    | value a => simp [readAll,valuesOf,outcome,rest]
    | nothing => simpa [readAll,valuesOf,outcome] using rest
    | failed message => exact absurd outcome (valid e (.head _) message)

theorem readAll_ok {α : Type} {read : List Line → Reading α} {es : List (List Line)} (ok : (readAll read es).2 = none) :
    ∀ e ∈ es, Valid read e := by
  induction es with
  | nil => simp
  | cons e es ih =>
    intro x member message failed
    cases outcome : read e with
    | value | nothing =>
      rcases List.mem_cons.mp member with rfl | later
      · rw [outcome] at failed; cases failed
      · exact ih (by simpa [readAll,outcome] using ok) x later message failed
    | failed m => simp [readAll,outcome] at ok

end Arks.Frames
