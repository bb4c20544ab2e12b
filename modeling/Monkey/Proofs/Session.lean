import Mathlib
import Monkey.Session.Line

/-!
# What a session passes over

The lines of a session are evaluated one after the other in one scope.  A line that is blank or does
not parse is answered and changes nothing, so such lines may stand anywhere among the others.  A
line that ends the session hides all lines after it, and colour changes nothing but how errors are
shown.
-/

namespace Monkey

/-! ## 1. One line -/

/-- The line ends the session. -/
def EndsSession (line : String) : Prop := Text.trim line ∈ Reply.leavingWords

instance (line : String) : Decidable (EndsSession line) :=
  inferInstanceAs (Decidable (Text.trim line ∈ Reply.leavingWords))

namespace Interpreter

variable {i : Interpreter} {line : String}

/-- The line is blank or does not parse. -/
def PassesOver (i : Interpreter) (line : String) : Prop :=
  Text.trim line = "" ∨ (Monkey.parse i.tracing line).errors ≠ []

/-- What is found wrong with a line.  A blank line is not parsed, whatever blanks it is made of. -/
def complaints (i : Interpreter) (line : String) : List ParseError :=
  if Text.trim line = "" then [] else (Monkey.parse i.tracing line).errors

/-- The messages about a line in order, each with an empty line after it. -/
def report (i : Interpreter) (colored : Bool) (line : String) : String :=
  String.join ((i.complaints line).map fun e => Reply.paint colored e.message ++ "\n\n")

theorem reply_of_endsSession (h : EndsSession line) (s : Scopes) :
    i.reply line s = (⟨.leave, [], []⟩, s) :=
  if_pos h

theorem leaves_reply (h : ¬EndsSession line) (s : Scopes) :
    (i.reply line s).1.result.leaves = false := by
  have hword : Text.trim line ∉ Reply.leavingWords := h
  simp only [reply, hword, if_false]
  split
  · rfl
  · split <;> rfl

/-- A line that is passed over leaves the scopes as they are and is answered with what is wrong with
it. -/
theorem reply_of_passesOver (h : ¬EndsSession line) (hpass : i.PassesOver line) (s : Scopes) :
    (i.reply line s).2 = s ∧
    ∀ colored, (i.reply line s).1.result.render colored = i.report colored line := by
  have hword : Text.trim line ∉ Reply.leavingWords := h
  unfold report complaints
  by_cases hblank : Text.trim line = ""
  · have hreply : i.reply line s = (⟨.blank, [], []⟩, s) := by
      simp only [reply, hword, if_false]
      exact if_pos hblank
    rw [hreply, if_pos hblank]
    exact ⟨rfl, fun _ => rfl⟩
  · have herrors : ¬(Monkey.parse i.tracing line).errors.isEmpty = true := by
      rw [List.isEmpty_iff]
      exact hpass.resolve_left hblank
    have hparse : (i.parse line).result = .error (Monkey.parse i.tracing line).errors := by
      rw [parse, if_neg herrors]
    simp only [reply, hword, hblank, if_false, hparse]
    exact ⟨trivial, fun _ => rfl⟩

end Interpreter

/-! ## 2. All lines -/

namespace Transcript

variable {i : Interpreter} {line : String}

theorem ofLines_cons_of_endsSession (h : EndsSession line) (lines : List String) (s : Scopes) :
    ofLines i (line :: lines) s = ⟨[.leave], [], [], s⟩ := by
  rw [ofLines, Interpreter.reply_of_endsSession h]
  rfl

theorem ofLines_cons (h : ¬EndsSession line) (lines : List String) (s : Scopes) :
    ofLines i (line :: lines) s =
      let r := (i.reply line s).1
      let t := ofLines i lines (i.reply line s).2
      ⟨r.result :: t.replies, r.events ++ t.events, r.trace ++ t.trace, t.scopes⟩ := by
  rw [ofLines]
  simp only [Interpreter.leaves_reply h, Bool.false_eq_true, if_false]

theorem left_ofLines_cons (h : ¬EndsSession line) (lines : List String) (s : Scopes) :
    (ofLines i (line :: lines) s).left = (ofLines i lines (i.reply line s).2).left := by
  rw [ofLines_cons h, left, List.any_cons, Interpreter.leaves_reply h]
  rfl

theorem length_replies_le (i : Interpreter) (lines : List String) (s : Scopes) :
    (ofLines i lines s).replies.length ≤ lines.length := by
  induction lines generalizing s with
  | nil => exact Nat.le_refl 0
  | cons line lines ih =>
    by_cases h : EndsSession line
    · rw [ofLines_cons_of_endsSession h]
      exact Nat.succ_le_succ (Nat.zero_le _)
    · rw [ofLines_cons h]
      exact Nat.succ_le_succ (ih _)

/-- Lines after one that ends the session do not count. -/
theorem ofLines_append_of_endsSession (h : EndsSession line) (before after : List String)
    (s : Scopes) :
    ofLines i (before ++ line :: after) s = ofLines i (before ++ [line]) s ∧
    (ofLines i (before ++ [line]) s).left = true := by
  induction before generalizing s with
  | nil =>
    rw [List.nil_append, List.nil_append, ofLines_cons_of_endsSession h,
      ofLines_cons_of_endsSession h]
    exact ⟨rfl, rfl⟩
  | cons first before ih =>
    rw [List.cons_append, List.cons_append]
    by_cases hfirst : EndsSession first
    · -- the session is over before it comes to the line
      rw [ofLines_cons_of_endsSession hfirst, ofLines_cons_of_endsSession hfirst]
      exact ⟨rfl, rfl⟩
    · rw [left_ofLines_cons hfirst, ofLines_cons hfirst, ofLines_cons hfirst, (ih _).1]
      exact ⟨rfl, (ih _).2⟩

end Transcript

namespace Session

/-- What is shown for each line: the prompt before it and the reply to it. -/
def texts (i : Interpreter) (c : Config) (s : Scopes) (lines : List String) : List String :=
  (Transcript.ofLines i lines s).replies.map fun r => c.prompt ++ r.render c.colored

/-- What is shown last: the prompt once more, unless a line has ended the session. -/
def ending (i : Interpreter) (c : Config) (s : Scopes) (lines : List String) : String :=
  if (Transcript.ofLines i lines s).left then "" else c.prompt

theorem output_resume (i : Interpreter) (c : Config) (s : Scopes) (input : Text.LineReading) :
    (resume i c s input).output =
      String.join (texts i c s input.lines) ++ ending i c s input.lines :=
  rfl

theorem scopes_resume (i : Interpreter) (c : Config) (s : Scopes) (input : Text.LineReading) :
    (resume i c s input).scopes = (Transcript.ofLines i input.lines s).scopes :=
  rfl

variable {i : Interpreter} {c : Config} {line : String}

theorem texts_cons (h : ¬EndsSession line) (lines : List String) (s : Scopes) :
    texts i c s (line :: lines) =
      (c.prompt ++ (i.reply line s).1.result.render c.colored) ::
        texts i c (i.reply line s).2 lines := by
  unfold texts
  rw [Transcript.ofLines_cons h]
  rfl

theorem ending_cons (h : ¬EndsSession line) (lines : List String) (s : Scopes) :
    ending i c s (line :: lines) = ending i c (i.reply line s).2 lines := by
  unfold ending
  rw [Transcript.left_ofLines_cons h]

theorem scopes_resume_cons (h : ¬EndsSession line) (lines : List String) (overlong : Bool)
    (s : Scopes) :
    (resume i c s ⟨line :: lines, overlong⟩).scopes =
      (resume i c (i.reply line s).2 ⟨lines, overlong⟩).scopes := by
  rw [scopes_resume, scopes_resume, Transcript.ofLines_cons h]

theorem resume_append_of_endsSession (h : EndsSession line) (before after : List String)
    (overlong : Bool) (s : Scopes) :
    resume i c s ⟨before ++ line :: after, overlong⟩ = resume i c s ⟨before ++ [line], false⟩ := by
  obtain ⟨hlines, hleft⟩ := Transcript.ofLines_append_of_endsSession (i := i) h before after s
  unfold resume
  rw [hlines]
  simp only [hleft, Bool.not_true, Bool.false_and]

end Session

/-! ## 3. Lines that were added -/

/-- A line of a session to which some lines were added. -/
structure Entry where
  line : String
  added : Bool

namespace Entry

def own (line : String) : Entry := ⟨line, false⟩

def lines (entries : List Entry) : List String := entries.map line

/-- The lines that were there before. -/
def ownLines (entries : List Entry) : List String := lines (entries.filter (!·.added))

theorem lines_map_own (ls : List String) : lines (ls.map own) = ls := by
  unfold lines
  rw [List.map_map]
  exact List.map_id ls

theorem filter_map_own (ls : List String) :
    (ls.map own).filter (!·.added) = ls.map own := by
  rw [List.filter_eq_self]
  intro e he
  obtain ⟨l, -, rfl⟩ := List.mem_map.mp he
  rfl

end Entry

open Entry (lines ownLines)

/-- The lines that were added make no difference.  The scopes are in the end as they would be
without them, and so are the texts shown for the other lines and what is shown last.  For each of
them the prompt is shown and what is wrong with it. -/
structure Undisturbed (i : Interpreter) (c : Config) (s : Scopes) (entries : List Entry) :
    Prop where
  scopes_eq : (Session.resume i c s ⟨lines entries, false⟩).scopes =
    (Session.resume i c s ⟨ownLines entries, false⟩).scopes
  ending_eq : Session.ending i c s (lines entries) = Session.ending i c s (ownLines entries)
  own_texts : ((entries.zip (Session.texts i c s (lines entries))).filter (!·.1.added)).map
    Prod.snd = Session.texts i c s (ownLines entries)
  added_text : ∀ (k : Nat) (e : Entry), entries[k]? = some e → e.added →
    (Session.texts i c s (lines entries))[k]? = some (c.prompt ++ i.report c.colored e.line)

section

variable {i : Interpreter} {c : Config} {s : Scopes} {entries : List Entry} {line : String}

theorem undisturbed_map_own (ls : List String) : Undisturbed i c s (ls.map Entry.own) := by
  have hown : ownLines (ls.map Entry.own) = lines (ls.map Entry.own) :=
    congrArg lines (Entry.filter_map_own ls)
  refine ⟨by rw [hown], by rw [hown], ?_, fun k e he hadded => ?_⟩
  · rw [hown, Entry.lines_map_own]
    -- a line may have ended the session, so there may be fewer texts than lines
    have hle : (Session.texts i c s ls).length ≤ (ls.map Entry.own).length := by
      rw [Session.texts, List.length_map, List.length_map]
      exact Transcript.length_replies_le i ls s
    have hfilter : ((ls.map Entry.own).zip (Session.texts i c s ls)).filter (!·.1.added) =
        (ls.map Entry.own).zip (Session.texts i c s ls) := by
      rw [List.filter_eq_self]
      intro p hp
      obtain ⟨l, -, hl⟩ := List.mem_map.mp (List.of_mem_zip hp).1
      rw [← hl]
      rfl
    rw [hfilter, List.map_snd_zip hle]
  · obtain ⟨l, -, rfl⟩ := List.mem_map.mp (List.mem_of_getElem? he)
    exact absurd hadded Bool.false_ne_true

theorem Undisturbed.cons_own (h : ¬EndsSession line)
    (hrest : Undisturbed i c (i.reply line s).2 entries) :
    Undisturbed i c s (⟨line, false⟩ :: entries) := by
  have hlines : lines (⟨line, false⟩ :: entries) = line :: lines entries := rfl
  have hown : ownLines (⟨line, false⟩ :: entries) = line :: ownLines entries := rfl
  constructor
  case scopes_eq =>
    rw [hlines, hown, Session.scopes_resume_cons h, Session.scopes_resume_cons h]
    exact hrest.scopes_eq
  case ending_eq =>
    rw [hlines, hown, Session.ending_cons h, Session.ending_cons h]
    exact hrest.ending_eq
  case own_texts =>
    rw [hlines, hown, Session.texts_cons h, Session.texts_cons h, ← hrest.own_texts]
    rfl
  case added_text =>
    rw [hlines, Session.texts_cons h]
    intro k e he hadded
    cases k with
    | zero =>
      cases he
      exact absurd hadded Bool.false_ne_true
    | succ k => exact hrest.added_text k e he hadded

theorem Undisturbed.cons_added (h : ¬EndsSession line) (hpass : i.PassesOver line)
    (hrest : Undisturbed i c s entries) : Undisturbed i c s (⟨line, true⟩ :: entries) := by
  obtain ⟨hscopes, hrender⟩ := Interpreter.reply_of_passesOver h hpass s
  have hlines : lines (⟨line, true⟩ :: entries) = line :: lines entries := rfl
  have hown : ownLines (⟨line, true⟩ :: entries) = ownLines entries := rfl
  constructor
  case scopes_eq =>
    rw [hlines, hown, Session.scopes_resume_cons h, hscopes]
    exact hrest.scopes_eq
  case ending_eq =>
    rw [hlines, hown, Session.ending_cons h, hscopes]
    exact hrest.ending_eq
  case own_texts =>
    rw [hlines, hown, Session.texts_cons h, hscopes, ← hrest.own_texts]
    rfl
  case added_text =>
    rw [hlines, Session.texts_cons h, hscopes, hrender]
    intro k e he hadded
    cases k with
    | zero =>
      cases he
      rfl
    | succ k => exact hrest.added_text k e he hadded

/-- Lines may be added anywhere before the first line that ends the session. -/
theorem undisturbed_append {front : List Entry} (hends : ∀ e ∈ front, ¬EndsSession e.line)
    (hpass : ∀ e ∈ front, e.added → i.PassesOver e.line) (back : List String) (s : Scopes) :
    Undisturbed i c s (front ++ back.map Entry.own) := by
  induction front generalizing s with
  | nil => exact undisturbed_map_own back
  | cons e front ih =>
    have ih := ih (fun e' he' => hends e' (List.mem_cons_of_mem e he'))
      (fun e' he' => hpass e' (List.mem_cons_of_mem e he'))
    have hline : ¬EndsSession e.line := hends e List.mem_cons_self
    have hadded : e.added → i.PassesOver e.line := hpass e List.mem_cons_self
    obtain ⟨line, added⟩ := e
    -- the lines after an own one are read in the scopes it leaves, in both sessions
    cases added with
    | false => exact .cons_own hline (ih _)
    | true => exact .cons_added hline (hadded rfl) (ih s)

end

/-! ## 4. Colour -/

/-- A piece of what is shown; an error message is an alarm. -/
structure Piece where
  text : String
  alarm : Bool

/-- With colour an alarm is red, and anything else is as it is. -/
def Piece.render (colored : Bool) (p : Piece) : String :=
  if colored && p.alarm then "\x1b[31m" ++ p.text ++ "\x1b[0m" else p.text

/-- Texts that are made of pieces make a text of all their pieces. -/
theorem join_map_of_pieces {α : Type} {text : α → String} {pieces : α → List Piece} {colored : Bool}
    (h : ∀ x, text x = String.join ((pieces x).map (·.render colored))) (xs : List α) :
    String.join (xs.map text) = String.join ((xs.flatMap pieces).map (·.render colored)) := by
  induction xs with
  | nil => rfl
  | cons x xs ih =>
    rw [List.map_cons, String.join_cons, h, ih, List.flatMap_cons, List.map_append,
      String.join_append]

namespace Reply

/-- The messages about a line that does not parse are alarms, and so is a value that is an error. -/
def pieces : Reply → List Piece
  | refused errors => errors.flatMap fun e => [⟨e.message, true⟩, ⟨"\n\n", false⟩]
  | result (.value (some v)) => [⟨v.inspect, v.kind = .error⟩, ⟨"\n", false⟩]
  | leave | blank | result _ => []

theorem renderValue_eq (colored : Bool) (v : Value) :
    renderValue colored v = Piece.render colored ⟨v.inspect, v.kind = .error⟩ ++ "\n" := by
  cases v <;> cases colored <;> rfl

theorem render_eq_pieces (colored : Bool) (r : Reply) :
    r.render colored = String.join (r.pieces.map (·.render colored)) := by
  cases r with
  | leave => rfl
  | blank => rfl
  | refused errors =>
    apply join_map_of_pieces
    intro e
    cases colored <;> simp [Piece.render, paint, red]
  | result outcome =>
    cases outcome with
    | missing => rfl
    | exhausted => rfl
    | value v =>
      cases v with
      | none => rfl
      | some v =>
        rw [render, renderValue_eq, pieces, List.map_cons, List.map_singleton, String.join_cons]
        cases colored <;> rfl

end Reply

namespace Session

/-- All that is shown, in pieces. -/
def pieces (i : Interpreter) (c : Config) (s : Scopes) (lines : List String) : List Piece :=
  (Transcript.ofLines i lines s).replies.flatMap (fun r => ⟨c.prompt, false⟩ :: r.pieces) ++
    [⟨ending i c s lines, false⟩]

theorem output_eq_pieces (i : Interpreter) (c : Config) (s : Scopes) (input : Text.LineReading) :
    (resume i c s input).output =
      String.join ((pieces i c s input.lines).map (·.render c.colored)) := by
  have hplain (text : String) : Piece.render c.colored ⟨text, false⟩ = text := by
    simp [Piece.render]
  have hreply (r : Reply) : c.prompt ++ r.render c.colored =
      String.join ((⟨c.prompt, false⟩ :: r.pieces).map (·.render c.colored)) := by
    rw [List.map_cons, String.join_cons, hplain, Reply.render_eq_pieces]
  rw [output_resume, texts, join_map_of_pieces hreply, pieces, List.map_append, String.join_append,
    List.map_singleton, hplain, String.join_cons, String.join_nil, String.append_empty]

theorem resume_withColor (i : Interpreter) (c : Config) (s : Scopes) (color : String)
    (input : Text.LineReading) :
    resume i { c with color } s input =
      { resume i c s input with
        output := String.join ((pieces i c s input.lines).map (·.render (color = "always"))) } :=
  congrArg (fun text => { resume i c s input with output := text })
    (output_eq_pieces i { c with color } s input)

end Session

/-! ## 5. Sessions -/

/-- Sessions of any lines, begun in any scopes.  What is shown is a text for each line that is read
and then an ending.  Lines that are blank or do not parse, and that do not end the session, may be
added anywhere before the first line that ends it: the scopes, the texts for the other lines and the
ending stay as they are, and the text for an added line is the prompt with what is wrong with the
line.  All lines after one that ends the session make no difference at all.  With colour, messages
about lines that do not parse and values that are errors are red, and nothing else is different. -/
theorem session_passes_over (i : Interpreter) (c : Config) (s : Scopes) :
    (∀ input : Text.LineReading, (Session.resume i c s input).output =
      String.join (Session.texts i c s input.lines) ++ Session.ending i c s input.lines) ∧
    (∀ (front : List Entry) (back : List String), (∀ e ∈ front, ¬EndsSession e.line) →
      (∀ e ∈ front, e.added → i.PassesOver e.line) →
      Undisturbed i c s (front ++ back.map Entry.own)) ∧
    (∀ (before : List String) (line : String) (after : List String) (overlong : Bool),
      EndsSession line →
      Session.resume i c s ⟨before ++ line :: after, overlong⟩ =
        Session.resume i c s ⟨before ++ [line], false⟩) ∧
    ∀ input : Text.LineReading,
      let never := Session.resume i { c with color := "never" } s input
      let ps := Session.pieces i c s input.lines
      never.output = String.join (ps.map (·.text)) ∧
      Session.resume i { c with color := "always" } s input =
        { never with output := String.join (ps.map fun p =>
            if p.alarm then "\x1b[31m" ++ p.text ++ "\x1b[0m" else p.text) } := by
  refine ⟨Session.output_resume i c s, ?added, ?ended, ?colour⟩
  case added =>
    intro front back hends hpass
    exact undisturbed_append hends hpass back s
  case ended =>
    intro before line after overlong hline
    exact Session.resume_append_of_endsSession hline before after overlong s
  case colour =>
    intro input
    dsimp only
    rw [Session.resume_withColor i c s "never", Session.resume_withColor i c s "always"]
    exact ⟨rfl, rfl⟩

/-- Two lines of a session, with a line in between that does not parse though its second statement
does, and a blank line. -/
def disturbed : List Entry :=
  [⟨"let a = 1;", false⟩, ⟨"let = 2; let a = 5;", true⟩, ⟨" \t", true⟩, ⟨"a", false⟩]

theorem session_passes_over_disturbed :
    (∀ e ∈ disturbed, ¬EndsSession e.line) ∧
    (∀ e ∈ disturbed, e.added → Interpreter.standard.PassesOver e.line) ∧
    Undisturbed .standard .standard .fresh (disturbed ++ [" exit", "a"].map Entry.own) ∧
    EndsSession " exit" ∧
    Session.resume .standard .standard .fresh ⟨["a", " exit", "b"], true⟩ =
      Session.resume .standard .standard .fresh ⟨["a", " exit"], false⟩ := by
  have hends : ∀ e ∈ disturbed, ¬EndsSession e.line := by decide
  have herrors : (parse false "let = 2; let a = 5;").errors ≠ [] := by cbv; simp
  have hpass : ∀ e ∈ disturbed, e.added → Interpreter.standard.PassesOver e.line := by
    intro e he hadded
    simp only [disturbed, List.mem_cons, List.not_mem_nil, or_false] at he
    rcases he with rfl | rfl | rfl | rfl
    · cases hadded
    · exact .inr herrors
    · exact .inl (by decide)
    · cases hadded
  have hexit : EndsSession " exit" := by decide
  obtain ⟨-, hundisturbed, hended, -⟩ := session_passes_over .standard .standard .fresh
  exact ⟨hends, hpass, hundisturbed disturbed _ hends hpass, hexit,
    hended ["a"] " exit" ["b"] true hexit⟩

/-- A line that was added before the only line of a session.  It is a word that ends the session,
after a blank that only the session takes for one. -/
def departing : List Entry := [⟨"\u00a0exit", true⟩, ⟨"let a = 1; a", false⟩]

/-- A line that does not parse may end the session.  The line after it is then not read: its name is
not bound and there is no text for it.  Nor does the text for the added line say what is wrong. -/
theorem session_ended_by_added :
    (∀ e ∈ departing, e.added = false → ¬EndsSession e.line) ∧
    (∀ e ∈ departing, e.added → Interpreter.standard.PassesOver e.line) ∧
    Session.texts .standard .standard .fresh (lines departing) = [">> "] ∧
    Session.texts .standard .standard .fresh (ownLines departing) = [">> 1\n"] ∧
    (Session.resume .standard .standard .fresh ⟨lines departing, false⟩).scopes.get? 0 "a" = none ∧
    (Session.resume .standard .standard .fresh ⟨ownLines departing, false⟩).scopes.get? 0 "a" =
      some (.int 1) ∧
    ¬Undisturbed .standard .standard .fresh departing := by
  have hlines : lines departing = ["\u00a0exit", "let a = 1; a"] := rfl
  have hown : ownLines departing = ["let a = 1; a"] := rfl
  have hleaves : EndsSession "\u00a0exit" := by decide
  have hstays : ¬EndsSession "let a = 1; a" := by decide
  have hshown : Session.texts .standard .standard .fresh (lines departing) = [">> "] := by
    rw [hlines, Session.texts, Transcript.ofLines_cons_of_endsSession hleaves]
    rfl
  have halone : Session.texts .standard .standard .fresh (ownLines departing) = [">> 1\n"] := by
    rw [hown, Session.texts_cons hstays]
    cbv
  refine ⟨by decide, ?_, hshown, halone, ?_, ?_, ?_⟩
  · intro e he hadded
    have herrors : (parse false "\u00a0exit").errors ≠ [] := by cbv; simp
    simp only [departing, List.mem_cons, List.not_mem_nil, or_false] at he
    rcases he with rfl | rfl
    · exact .inr herrors
    · cases hadded
  · rw [hlines, Session.scopes_resume, Transcript.ofLines_cons_of_endsSession hleaves]
    cbv
  · rw [hown, Session.scopes_resume_cons hstays]
    cbv
  · intro hundisturbed
    have htexts := hundisturbed.own_texts
    rw [hshown, halone] at htexts
    cases htexts

end Monkey
