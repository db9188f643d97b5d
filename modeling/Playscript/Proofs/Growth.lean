import Playscript.Proofs.Canonical
import Playscript.Proofs.PlainWriting

/-!
# The length of what is written

A line that was read is written with at most one character more, the escape of a bracket that opens
no tag, and with the LF that the source can lack where it ends. What stood around parameters, and
padding, is left out or becomes shorter.
-/

namespace Playscript

namespace Entry

variable {key value written token part body : Text} {entry : Entry} {entries : List Entry}
  {parts : List Text}

theorem length_writeValue_le (h : value.Spelling written)
    (hw : writeValue key value = .ok token) : token.length ≤ written.length := by
  rcases writeValue_cases hw with ⟨-, rfl⟩ | ⟨hquoted, mark, -, -, rfl⟩
  · cases h with
    | bare => exact Nat.le_refl _
    | quoted =>
      simp only [List.length_cons, List.length_append]
      omega
  · cases h with
    | bare hbare => exact (hquoted hbare).elim
    | quoted => simp

theorem length_write_le (h : entry.Spelling token) (hw : entry.write = .ok part) :
    part.length ≤ token.length := by
  cases h with
  | flag hk =>
    rw [write_flag hk] at hw
    obtain rfl := Except.ok.inj hw
    exact Nat.le_refl _
  | assigned hk hv =>
    obtain ⟨-, token, hvalue, rfl⟩ := exists_of_write_text hw
    have hle := length_writeValue_le hv hvalue
    simp only [List.length_append, List.length_cons]
    omega

theorem length_spaced_le (h : Listing entries body) (he : Recognizer.atTokenEnd body)
    (hw : List.Forall₂ (fun entry part => write entry = .ok part) entries parts) :
    (spaced parts).length ≤ body.length := by
  induction h generalizing parts with
  | nil =>
    cases hw
    exact Nat.zero_le _
  | @cons entry entries space token rest hs ht hrest _ ih =>
    cases hw with
    | @cons _ part _ parts hpart hparts =>
      -- Where a token may end none begins, so there is a space in front of this one.
      have hspace : 0 < space.length := by
        apply List.length_pos_iff.mpr
        rintro rfl
        rw [List.nil_append, ht.atTokenEnd_append rest] at he
        cases he
      have htoken := length_write_le ht hpart
      have hafter := ih hrest hparts
      have hspaced : spaced (part :: parts) = ' ' :: (part ++ spaced parts) := rfl
      rw [hspaced]
      simp only [List.length_cons, List.length_append]
      omega

end Entry

theorem Parameters.length_writeAfter_le {name body written : Text} {parameters : Parameters}
    (h : Entry.Listing parameters.entries body) (he : Recognizer.atTokenEnd body)
    (hw : parameters.writeAfter name = .ok written) :
    written.length ≤ name.length + body.length := by
  cases hm : parameters.entries.mapM Entry.write with
  | error e => simp [writeAfter, hm, Except.map] at hw
  | ok parts =>
    have hwritten : [' '].intercalate (name :: parts) = written := by
      simpa [writeAfter, hm, Except.map] using hw
    have hle := Entry.length_spaced_le h he (mapM_eq_ok_iff.mp hm)
    rw [← hwritten, intercalate_space, List.length_append]
    omega

namespace Line

variable {name content written : Text} {emotion alternate : Option Text} {line : Line}

theorem eq_of_writeCue (h : writeCue name emotion = .ok written) :
    written = Sigil.cue.text ++ (name ++ emotionText emotion) := by
  unfold writeCue at h
  split at h
  · cases h
  split at h
  · cases h
  cases emotion with
  | none =>
    dsimp only at h
    split at h
    · cases h
    · rw [emotionText, List.append_nil]
      exact (Except.ok.inj h).symm
  | some emotion =>
    dsimp only at h
    split at h
    · cases h
    split at h
    · cases h
    · rw [emotionText, ← List.append_assoc]
      exact (Except.ok.inj h).symm

theorem eq_of_writeLabel (h : writeLabel name alternate = .ok written) :
    written = Sigil.label.text ++ (name ++ alternateText alternate) := by
  unfold writeLabel at h
  split at h
  · cases h
  cases alternate with
  | none =>
    rw [alternateText, List.append_nil]
    exact (Except.ok.inj h).symm
  | some alternate =>
    dsimp only at h
    split at h
    · cases h
    · rw [alternateText, ← List.append_assoc]
      exact (Except.ok.inj h).symm

theorem length_writeProse_le (h : write (.prose content) = .ok written) :
    written.length ≤ content.length + 1 := by
  simp only [write] at h
  split at h
  · cases h
  split at h
  · obtain rfl := Except.ok.inj h
    rw [List.length_append, Nat.add_comm]
    exact Nat.le_refl _
  · obtain rfl := Except.ok.inj h
    exact Nat.le_succ _

theorem length_trim_le (text : Text) : text.trim.length ≤ text.length := by
  have hright := (List.dropWhile_sublist (p := isSpace) (l := text.trimLeft.reverse)).length_le
  have hleft := (List.dropWhile_sublist (p := isSpace) (l := text)).length_le
  rw [List.length_reverse] at hright
  rw [Text.trim, Text.trimRight, List.length_reverse]
  exact Nat.le_trans hright hleft

/-- What is written for a line from one physical line is longer than that by the escape at most. -/
theorem length_write_le (h : line.Spelling content) (hw : line.write = .ok written) :
    written.length ≤ content.length + 1 := by
  cases h with
  | comment body =>
    simp only [write] at hw
    split at hw
    · cases hw
    · obtain rfl := Except.ok.inj hw
      exact Nat.le_succ _
  | narration =>
    obtain rfl := Except.ok.inj hw
    rw [List.length_append]
    omega
  | cue =>
    obtain rfl := eq_of_writeCue hw
    simp only [List.length_append]
    omega
  | label =>
    obtain rfl := eq_of_writeLabel hw
    simp only [List.length_append]
    omega
  | @tag name body parameters hn hb hl =>
    simp only [write, writeTag, hn, Bool.not_true, Bool.false_eq_true, if_false] at hw
    cases hafter : parameters.writeAfter name with
    | error e => simp [hafter, Except.map] at hw
    | ok after =>
      rw [hafter] at hw
      obtain rfl := Except.ok.inj hw
      have hle := Parameters.length_writeAfter_le hl hb hafter
      simp only [List.length_append]
      omega
  | escaped text =>
    have hle := length_writeProse_le hw
    rw [List.length_append]
    omega
  | prose =>
    have hle := length_writeProse_le hw
    have htrim := length_trim_le content
    omega

end Line

theorem PhysicalLine.length_content_lt {text : Text} (h : (ofText text).size < text.length) :
    (ofText text).content.length < (ofText text).size := by
  have ho := opens_ofText text
  have hwhole := ho.ending_whole
  rw [size]
  cases he : (ofText text).ending with
  | missing =>
    rw [he] at hwhole
    have hrest : text.length ≤ (ofText text).size := List.drop_eq_nil_iff.mp hwhole
    omega
  | _ =>
    simp only [LineEnd.text, List.length_cons, List.length_nil]
    omega

/-- What is written is no longer than the `size` characters at the start of the text, or longer by
one where the text ends with them. -/
structure Text.Fits (written : Text) (size : Nat) (text : Text) : Prop where
  le : written.length ≤ size + 1
  le_of_lt : size < text.length → written.length ≤ size

namespace Recognizer

variable {text written : Text} {line : Line} {size : Nat}

theorem TakesLine.fits (h : TakesLine line text size) (hw : line.write = .ok written) :
    written.Fits size text := by
  obtain ⟨hs, rfl⟩ := h
  have hle := Line.length_write_le hs hw
  constructor
  · rw [PhysicalLine.size]
    omega
  · intro hlt
    have hcontent := PhysicalLine.length_content_lt hlt
    omega

theorem fits_of_le (h : written.length ≤ size) : written.Fits size text := by
  constructor
  · omega
  · intro _
    exact h

theorem blockComment_fits (h : blockComment text = .matched line size)
    (hw : line.write = .ok written) : written.Fits size text := by
  obtain ⟨body, after, -, -, -, -, rfl, rfl⟩ := blockComment_eq_matched_iff.mp h
  obtain ⟨rfl, -, -⟩ := Line.writeBlockComment_sound hw
  apply fits_of_le
  simp only [Sigil.text, Mark.commentClose, List.length_append, List.length_cons, List.length_nil]
  omega

/-- The name and the parameters stood between the brackets. -/
theorem bracketTag_fits (h : bracketTag text = .matched line size)
    (hw : line.write = .ok written) : written.Fits size text := by
  obtain ⟨inside, after, skipped, name, body, parameters, -, -, hfold, -, -, he, hl, rfl, rfl⟩ :=
    bracketTag_sound h
  obtain ⟨-, between, hbetween, -, rfl⟩ := Line.writeBracketTag_sound hw
  have hle := Parameters.length_writeAfter_le hl he hbetween
  have hinside := Text.length_foldBreaks inside
  rw [hfold] at hinside
  simp only [List.length_append] at hinside
  apply fits_of_le
  simp only [tagStop, Sigil.text, List.length_append, List.length_cons, List.length_nil]
  omega

end Recognizer

theorem Step.fits {text written : Text} {step : Step}
    (h : Step.ofRules Rule.standard text = .ok step) (hw : step.line.write = .ok written) :
    written.Fits step.size text := by
  obtain ⟨opening, hmatch⟩ := Step.exists_opening_of_ok h
  cases opening with
  | comment => exact (Recognizer.comment_sound hmatch).2.fits hw
  | blockComment => exact Recognizer.blockComment_fits hmatch hw
  | bracketTag => exact Recognizer.bracketTag_fits hmatch hw
  | label => exact (Recognizer.label_sound hmatch).2.fits hw
  | cue => exact (Recognizer.cue_sound hmatch).2.fits hw
  | lineTag => exact (Recognizer.lineTag_sound hmatch).2.fits hw
  | prose => exact (Recognizer.prose_sound hmatch).2.2.fits hw

/-- Each line adds one character at most, and one more can be added where the source ends, as long
as anything is left of it. -/
theorem Run.length_written_le {source : Text} {rounds offset : Nat} {lines : List (Located Line)}
    {refusal : Option Refusal} {texts : List Text}
    (h : Run Rule.standard source rounds offset lines refusal)
    (hw : List.Forall₂ (fun line text => line.write = .ok text) (lines.map Located.content) texts) :
    (texts.map (· ++ ['\n'])).flatten.length ≤
      source.length - offset + lines.length + min 1 (source.length - offset) := by
  induction h generalizing texts with
  | finished h =>
    cases hw
    exact Nat.zero_le _
  | refused h hs =>
    cases hw
    exact Nat.zero_le _
  | @line rounds offset step lines refusal h hs hr ih =>
    rw [List.map_cons] at hw
    cases hw with
    | @cons _ text _ texts htext htexts =>
      obtain ⟨hle, hlt⟩ := Step.fits hs htext
      have hsize := (Opening.isCut (Step.recognize_of_ok hs)).le_length
      rw [List.length_drop] at hlt hsize
      have hrest := ih htexts
      rw [List.map_cons, List.flatten_cons, List.length_append, List.length_append,
        List.length_singleton, List.length_cons]
      -- The allowance for the end of the source is spent by the last line only.
      by_cases hends : step.size < source.length - offset
      · have htight := hlt hends
        omega
      · omega

namespace Reader

theorem parse_eq_unlimited {reader : Reader} {source : Text}
    (h : ¬ reader.excludes source.length) :
    reader.parse source = (unlimited reader.rules).parse source := by
  have hfree := not_excludes_unlimited reader.rules source.length
  simp only [parse, read, h, hfree, if_false]
  rfl

end Reader

namespace Document

variable {source text : Text} {read : Located Document}

theorem write_length_of_parse (h : (Reader.unlimited Rule.standard).parse source = .ok read)
    (hw : read.content.write = .ok text) :
    text.length ≤ source.length + read.content.lines.length + 1 := by
  rcases Reader.run_of_parse h with ⟨-, rfl⟩ | ⟨-, rounds, lines, hrun, rfl⟩
  · obtain rfl := Except.ok.inj hw
    exact Nat.zero_le _
  · obtain ⟨texts, rfl, hm, -⟩ := write_script hw
    obtain ⟨bare, rfl, hall⟩ := mapM_writeEnded hm
    have hle := hrun.length_written_le hall
    change _ ≤ source.length + lines.length + 1
    omega

/-- Making a source canonical adds at most one character for each line, and one more. A reader whose
limit leaves room for them reads the canonical source as well, as the same document. -/
theorem length_canonical_le {limit : Int}
    (h : (Reader.mk limit Rule.standard).parse source = .ok read) :
    ∃ text, read.content.write = .ok text ∧
      text.length ≤ source.length + read.content.lines.length + 1 ∧
      (¬ (Reader.mk limit Rule.standard).excludes
          (source.length + read.content.lines.length + 1) →
        ∃ again, (Reader.mk limit Rule.standard).parse text = .ok again ∧
          again.content.contents = read.content.contents) := by
  rw [Reader.parse_eq_unlimited (Reader.not_excludes_of_parse h)] at h
  obtain ⟨text, hw⟩ := writable_of_parse h
  have hle := write_length_of_parse h hw
  refine ⟨text, hw, hle, ?_⟩
  intro hroom
  have hfree : ¬ (Reader.mk limit Rule.standard).excludes text.length := by
    rintro ⟨hpos, hlt⟩
    exact hroom ⟨hpos, by omega⟩
  obtain ⟨again, hagain, hcontents⟩ := exists_parse_of_write hw
  exact ⟨again, by rw [Reader.parse_eq_unlimited hfree]; exact hagain, hcontents⟩

/-- The bound is met: the bracket is escaped, and the end of the line is added. -/
theorem length_canonical_le_bracket :
    (Reader.mk 3 Rule.standard).parse ['['] =
      .ok ⟨.script [⟨.prose ['['], ['['], some (.ofSize 0 1)⟩], ['['], some (.ofSize 0 1)⟩ ∧
    (script [⟨.prose ['['], ['['], some (.ofSize 0 1)⟩]).write = .ok ['_', '[', '\n'] ∧
    ∃ again, (Reader.mk 3 Rule.standard).parse ['_', '[', '\n'] = .ok again ∧
      again.content.contents = some [.prose ['[']] := by
  have hread : (Reader.mk 3 Rule.standard).parse ['['] = .ok
      ⟨.script [⟨.prose ['['], ['['], some (.ofSize 0 1)⟩], ['['], some (.ofSize 0 1)⟩ := by
    decide +kernel
  obtain ⟨text, hw, -, hagain⟩ := length_canonical_le hread
  obtain rfl : ['_', '[', '\n'] = text := Except.ok.inj hw
  exact ⟨hread, hw, hagain (by decide)⟩

end Document

end Playscript
