import Playscript.Reading.Line

/-!
# Composition of a document from its lines

At each offset the first rule that finds something decides. The lines follow each other without a
gap until the text ends or a rule refuses it. A rule that consumes nothing stops the composition.
-/

namespace Playscript

structure Rule where
  name : Text
  recognize : Recognizer Line

namespace Rule

def comment : Rule := ⟨"parse_line_comment".toList, Recognizer.comment⟩
def blockComment : Rule := ⟨"parse_block_comment".toList, Recognizer.blockComment⟩
def bracketTag : Rule := ⟨"parse_multi_line_tag".toList, Recognizer.bracketTag⟩
def label : Rule := ⟨"parse_label".toList, Recognizer.label⟩
def cue : Rule := ⟨"parse_character_declaration".toList, Recognizer.cue⟩
def lineTag : Rule := ⟨"parse_single_line_tag".toList, Recognizer.lineTag⟩
def prose : Rule := ⟨"parse_bare_text".toList, Recognizer.prose⟩

/-- Prose takes any line, so it comes last. -/
def standard : List Rule := [comment, blockComment, bracketTag, label, cue, lineTag, prose]

def idle (name : Text) : Rule := ⟨name, fun _ => .matched .narration 0⟩

end Rule

structure Step where
  line : Line
  size : Nat
  size_pos : 0 < size
  deriving DecidableEq, Repr

namespace Step

def ofRules : List Rule → Text → Except Refusal Step
  | [], _ => .error ⟨.unrecognizedLine, 0⟩
  | rule :: rules, text =>
    match rule.recognize text with
    | .absent => ofRules rules text
    | .refused refusal => .error refusal
    | .matched line size =>
      if h : 0 < size then .ok ⟨line, size, h⟩ else .error ⟨.noProgress rule.name, 0⟩

def located (step : Step) (offset : Nat) (text : Text) : Located Line :=
  ⟨step.line, text.take step.size, some (.ofSize offset step.size)⟩

end Step

/-- The lines up to the end, or up to the first refusal. -/
structure Composition where
  lines : List (Located Line)
  refusal : Option Refusal
  deriving DecidableEq, Repr

namespace Composition

/-- Goes on at `offset`, where `text` stands, after the lines `done`, the latest first. -/
def resume (rules : List Rule) (done : List (Located Line)) (offset : Nat) (text : Text) :
    Composition :=
  match text with
  | [] => ⟨done.reverse, none⟩
  | c :: rest =>
    match Step.ofRules rules (c :: rest) with
    | .error refusal => ⟨done.reverse, some (refusal.shift offset)⟩
    | .ok step =>
      resume rules (step.located offset (c :: rest) :: done) (offset + step.size)
        ((c :: rest).drop step.size)
termination_by text.length
decreasing_by
  have := step.size_pos
  simp only [List.length_drop, List.length_cons]
  omega

def ofText (rules : List Rule) (offset : Nat) (text : Text) : Composition :=
  resume rules [] offset text

theorem resume_eq (rules : List Rule) (done : List (Located Line)) (offset : Nat) (text : Text) :
    resume rules done offset text =
      ⟨done.reverse ++ (ofText rules offset text).lines, (ofText rules offset text).refusal⟩ := by
  unfold ofText
  suffices h : ∀ first, resume rules (first : List (Located Line)) offset text =
      ⟨first.reverse ++ (resume rules [] offset text).lines,
        (resume rules [] offset text).refusal⟩ from h done
  fun_induction resume rules done offset text with
  | case1 done offset =>
    intro first
    simp [resume]
  | case2 done offset c rest refusal h =>
    intro first
    simp [resume, h]
  | case3 done offset c rest step h ih =>
    intro first
    rw [resume, resume]
    simp only [h]
    rw [ih, ih [_]]
    simp

@[simp] theorem ofText_nil (rules : List Rule) (offset : Nat) :
    ofText rules offset [] = ⟨[], none⟩ := by
  simp [ofText, resume]

theorem ofText_of_error {rules : List Rule} {text : Text} {refusal : Refusal} (hne : text ≠ [])
    (h : Step.ofRules rules text = .error refusal) (offset : Nat) :
    ofText rules offset text = ⟨[], some (refusal.shift offset)⟩ := by
  obtain ⟨c, rest, rfl⟩ := List.exists_cons_of_ne_nil hne
  simp [ofText, resume, h]

theorem ofText_of_ok {rules : List Rule} {text : Text} {step : Step} (hne : text ≠ [])
    (h : Step.ofRules rules text = .ok step) (offset : Nat) :
    ofText rules offset text =
      let after := ofText rules (offset + step.size) (text.drop step.size)
      ⟨step.located offset text :: after.lines, after.refusal⟩ := by
  obtain ⟨c, rest, rfl⟩ := List.exists_cons_of_ne_nil hne
  rw [ofText, resume]
  simp [h, resume_eq]

end Composition

end Playscript
