import Playscript.Cursor
import Playscript.Proofs.ParameterGrammar

/-!
# The layout of parameters

A layout takes a text apart into tokens and the spaces around them. A text has at most one layout,
and its parameters are recognized where it has one that gives no key twice. Nothing of the text is
lost: the entries come from the tokens, one from each and in their order.
-/

namespace Playscript

open Recognizer (atTokenEnd)

@[ext]
structure Item where
  space : Text
  token : Text
  entry : Entry
  deriving DecidableEq, Repr

structure Layout where
  items : List Item
  trailing : Text
  deriving DecidableEq, Repr

namespace Layout

def text (layout : Layout) : Text :=
  layout.items.flatMap (fun item => item.space ++ item.token) ++ layout.trailing

def entries (layout : Layout) : List Entry := layout.items.map Item.entry

structure IsValid (layout : Layout) : Prop where
  spelled : ∀ item ∈ layout.items, item.entry.Spelling item.token
  spaced : ∀ item ∈ layout.items, ∀ c ∈ item.space, isSpace c
  apart : ∀ item ∈ layout.items.tail, item.space ≠ []
  trailing_spaced : ∀ c ∈ layout.trailing, isSpace c

end Layout

namespace Layout

variable {item other : Item} {items others : List Item} {trailing text : Text}
  {entries : List Entry} {layout first second : Layout}

theorem text_cons (item : Item) (items : List Item) (trailing : Text) :
    (Layout.mk (item :: items) trailing).text =
      item.space ++ (item.token ++ (Layout.mk items trailing).text) := by
  simp [Layout.text]

theorem IsValid.tail (h : (Layout.mk (item :: items) trailing).IsValid) :
    (Layout.mk items trailing).IsValid := by
  constructor
  · intro later hmem
    exact h.spelled later (List.mem_cons_of_mem item hmem)
  · intro later hmem
    exact h.spaced later (List.mem_cons_of_mem item hmem)
  · intro later hmem
    exact h.apart later (List.mem_of_mem_tail hmem)
  · exact h.trailing_spaced

/-- What follows a token begins with a space, unless nothing follows. -/
theorem IsValid.atTokenEnd (h : (Layout.mk (item :: items) trailing).IsValid) :
    atTokenEnd (Layout.mk items trailing).text := by
  cases items with
  | nil =>
    cases trailing with
    | nil => rfl
    | cons c rest => exact h.trailing_spaced c List.mem_cons_self
  | cons next items =>
    have hne : next.space ≠ [] := h.apart next List.mem_cons_self
    have hspace := h.spaced next (List.mem_cons_of_mem item List.mem_cons_self)
    rw [text_cons]
    cases hs : next.space with
    | nil => exact (hne hs).elim
    | cons c rest =>
      rw [hs] at hspace
      exact hspace c List.mem_cons_self

theorem IsValid.listing (h : layout.IsValid) : Entry.Listing layout.entries layout.text := by
  obtain ⟨items, trailing⟩ := layout
  induction items with
  | nil => exact .nil h.trailing_spaced
  | cons item items ih =>
    rw [text_cons]
    exact .cons (h.spaced item List.mem_cons_self) (h.spelled item List.mem_cons_self) h.atTokenEnd
      (ih h.tail)

theorem exists_of_listing (h : Entry.Listing entries text) :
    ∃ layout : Layout, layout.IsValid ∧ layout.text = text ∧ layout.entries = entries := by
  induction h with
  | @nil space hs => exact ⟨⟨[], space⟩, ⟨by simp, by simp, by simp, hs⟩, rfl, rfl⟩
  | @cons entry entries space token rest hs ht he _ ih =>
    obtain ⟨⟨items, trailing⟩, hvalid, rfl, rfl⟩ := ih
    refine ⟨⟨⟨space, token, entry⟩ :: items, trailing⟩, ?_, text_cons _ _ _, rfl⟩
    constructor
    · intro item hmem
      rcases List.mem_cons.mp hmem with rfl | hmem
      · exact ht
      · exact hvalid.spelled item hmem
    · intro item hmem
      rcases List.mem_cons.mp hmem with rfl | hmem
      · exact hs
      · exact hvalid.spaced item hmem
    · -- The token ends before the next one begins, so the next one has a space in front of it.
      intro item hmem hnone
      cases items with
      | nil => cases hmem
      | cons next items =>
        rcases List.mem_cons.mp hmem with rfl | hmem
        · have hbegins := (hvalid.spelled item List.mem_cons_self).atTokenEnd_append
            (Layout.mk items trailing).text
          rw [text_cons, hnone, List.nil_append, hbegins] at he
          cases he
        · exact hvalid.apart item hmem hnone
    · exact hvalid.trailing_spaced

theorem listing_iff : Entry.Listing entries text ↔
    ∃ layout : Layout, layout.IsValid ∧ layout.text = text ∧ layout.entries = entries := by
  constructor
  · exact exists_of_listing
  · rintro ⟨layout, h, rfl, rfl⟩
    exact h.listing

/-- The text itself says where its first token stands and what it says. -/
theorem IsValid.head (h : (Layout.mk (item :: items) trailing).IsValid)
    (htext : (Layout.mk (item :: items) trailing).text = text) :
    item.space = text.takeWhile isSpace ∧
    Recognizer.parameter (text.dropWhile isSpace) = .matched item.entry item.token.length ∧
    text.dropWhile isSpace = item.token ++ (Layout.mk items trailing).text := by
  have hspace := h.spaced item List.mem_cons_self
  have hspelled := h.spelled item List.mem_cons_self
  have hstop := Recognizer.stopsRun_space
    (hspelled.atTokenEnd_append (Layout.mk items trailing).text)
  rw [← htext, text_cons, Text.takeWhile_run hspace hstop, Text.dropWhile_run hspace hstop]
  exact ⟨rfl, Recognizer.parameter_complete hspelled h.atTokenEnd, rfl⟩

theorem head_unique (hf : (Layout.mk (item :: items) trailing).IsValid)
    (hs : (Layout.mk (other :: others) text).IsValid)
    (h : (Layout.mk (item :: items) trailing).text = (Layout.mk (other :: others) text).text) :
    item = other ∧ (Layout.mk items trailing).text = (Layout.mk others text).text := by
  obtain ⟨hspace, hmatch, hdrop⟩ := hf.head rfl
  obtain ⟨hspace', hmatch', hdrop'⟩ := hs.head h.symm
  obtain ⟨hentry, hlength⟩ := Outcome.matched.inj (hmatch.symm.trans hmatch')
  obtain ⟨htoken, hrest⟩ := List.append_inj (hdrop.symm.trans hdrop') hlength
  exact ⟨Item.ext (hspace.trans hspace'.symm) htoken hentry, hrest⟩

theorem IsValid.text_not_blank (h : (Layout.mk (item :: items) trailing).IsValid) :
    ¬ ∀ c ∈ (Layout.mk (item :: items) trailing).text, isSpace c := by
  intro hall
  obtain ⟨-, hmatch, -⟩ := h.head rfl
  rw [List.dropWhile_eq_nil_iff.mpr hall] at hmatch
  cases hmatch

/-- A text has one layout at most. -/
theorem eq_of_text_eq (hf : first.IsValid) (hs : second.IsValid) (h : first.text = second.text) :
    first = second := by
  obtain ⟨items, trailing⟩ := first
  obtain ⟨others, rest⟩ := second
  induction items generalizing others with
  | nil =>
    cases others with
    | nil =>
      have htrailing : trailing = rest := h
      rw [htrailing]
    | cons other others =>
      refine (hs.text_not_blank ?_).elim
      rw [← h]
      exact hf.trailing_spaced
  | cons item items ih =>
    cases others with
    | nil =>
      refine (hf.text_not_blank ?_).elim
      rw [h]
      exact hs.trailing_spaced
    | cons other others =>
      obtain ⟨rfl, hrest⟩ := head_unique hf hs h
      obtain ⟨rfl, rfl⟩ := Layout.mk.inj (ih hf.tail others hs.tail hrest)
      rfl

end Layout

namespace Cursor

theorem run_parameters (cursor : Cursor) : cursor.run Recognizer.parameters =
    match Parameters.read cursor.remaining with
    | .error refusal => .refused (refusal.shift cursor.offset)
    | .ok parameters =>
      .matched ⟨parameters, cursor.remaining,
        some (.ofSize cursor.offset cursor.remaining.length)⟩
        (cursor.offset + cursor.remaining.length) := by
  unfold run Recognizer.parameters
  cases Parameters.read cursor.remaining with
  | error refusal => rfl
  | ok parameters => simp only [List.take_length]

theorem offset_add_length (cursor : Cursor) :
    cursor.offset + cursor.remaining.length = max cursor.offset cursor.source.length := by
  rw [remaining, List.length_drop]
  omega

/-- Parameters are recognized exactly where the rest of the source has a layout without a repeated
key. There is no other layout, and it gives the entries in order. Anything else is refused. -/
theorem run_parameters_iff_layout (cursor : Cursor) :
    (∀ entries stop,
      (∃ found, cursor.run Recognizer.parameters = .matched found stop ∧
        found.content.entries = entries) ↔
      (∃ layout : Layout, layout.IsValid ∧ layout.text = cursor.remaining ∧
        layout.entries = entries) ∧
      (entries.map Prod.fst).Nodup ∧ stop = max cursor.offset cursor.source.length) ∧
    (∀ first second : Layout, first.IsValid → second.IsValid → first.text = cursor.remaining →
      second.text = cursor.remaining → first = second) ∧
    ((¬ ∃ layout : Layout, layout.IsValid ∧ layout.text = cursor.remaining ∧
        (layout.entries.map Prod.fst).Nodup) →
      ∃ refusal, cursor.run Recognizer.parameters = .refused refusal ∧
        refusal.fault.code = .parameter) := by
  rw [run_parameters, ← offset_add_length]
  refine ⟨?_, ?_, ?_⟩
  · intro entries stop
    rw [← Layout.listing_iff]
    constructor
    · rintro ⟨found, hrun, rfl⟩
      cases hread : Parameters.read cursor.remaining with
      | error refusal =>
        rw [hread] at hrun
        cases hrun
      | ok parameters =>
        rw [hread] at hrun
        obtain ⟨rfl, rfl⟩ := Outcome.matched.inj hrun
        exact ⟨Parameters.read_eq_ok_iff.mp hread, parameters.nodup_keys, rfl⟩
    · rintro ⟨hlisting, hnodup, rfl⟩
      have hread := (@Parameters.read_eq_ok_iff _ ⟨entries, hnodup⟩).mpr hlisting
      rw [hread]
      exact ⟨_, rfl, rfl⟩
  · intro first second hf hs hfirst hsecond
    exact Layout.eq_of_text_eq hf hs (hfirst.trans hsecond.symm)
  · intro hnone
    cases hread : Parameters.read cursor.remaining with
    | error refusal => exact ⟨_, rfl, (Parameters.read_refused hread).1⟩
    | ok parameters =>
      obtain ⟨layout, hvalid, htext, hentries⟩ :=
        Layout.listing_iff.mp (Parameters.read_eq_ok_iff.mp hread)
      exact (hnone ⟨layout, hvalid, htext, hentries ▸ parameters.nodup_keys⟩).elim

end Cursor

end Playscript
