import Mathlib.Data.List.Forall2
import Mathlib.Data.List.Nodup
import Mathlib.Logic.Relation
import Playscript.Document.Alike

/-!
# Equal nodes hash the same

Likeness of nodes compares the parameters of tags as mappings, at any depth, and hashing leaves them
out. So a node is alike to just those that come from it by reordering the parameters of its tags,
and all of these have its hash.
-/

namespace Playscript

namespace Parameters

variable {p q : Parameters} {key : Text} {value : Value}

theorem get?_eq_some_iff : p.get? key = some value ↔ (key, value) ∈ p.entries := by
  rw [get?, List.lookup_eq_some_iff]
  constructor
  · rintro ⟨before, after, h, -⟩
    simp [h]
  · intro h
    obtain ⟨before, after, hsplit⟩ := List.mem_iff_append.mp h
    have hnodup := p.nodup_keys
    rw [hsplit, List.map_append, List.map_cons, List.nodup_append] at hnodup
    refine ⟨before, after, hsplit, ?_⟩
    intro entry hentry
    have hne := hnodup.2.2 entry.1 (List.mem_map_of_mem hentry) key (by simp)
    simpa using hne.symm

theorem alike_iff_get? : p.alike q ↔ ∀ key, p.get? key = q.get? key := by
  -- No key occurs twice, so no pair does, and only the order is left to differ.
  have hp : p.entries.Nodup := p.nodup_keys.of_map
  have hq : q.entries.Nodup := q.nodup_keys.of_map
  rw [alike, List.isPerm_iff, List.perm_ext_iff_of_nodup hp hq]
  constructor
  · intro h key
    apply Option.ext
    intro value
    rw [get?_eq_some_iff, get?_eq_some_iff]
    exact h (key, value)
  · rintro h ⟨key, value⟩
    rw [← get?_eq_some_iff, h, get?_eq_some_iff]

end Parameters

/-- The second line is the first with the parameters of its tag replaced: each key has the same
value, in whatever order the keys came. -/
inductive Line.Reordered : Line → Line → Prop where
  | tag {form : TagForm} {name : Text} {p q : Parameters} (h : ∀ key, p.get? key = q.get? key) :
      Reordered (.tag form name p) (.tag form name q)

namespace Line

variable {a b c : Line}

theorem Reordered.symm (h : a.Reordered b) : b.Reordered a := by
  cases h with
  | tag h => exact .tag fun key => (h key).symm

theorem Reordered.trans (h : a.Reordered b) (k : b.Reordered c) : a.Reordered c := by
  cases h with
  | tag h => cases k with
    | tag k => exact .tag fun key => (h key).trans (k key)

theorem alike_cases (h : a.alike b) : a = b ∨ ∃ form name p q, a = .tag form name p ∧
    b = .tag form name q ∧ p.entries.Perm q.entries := by
  unfold alike at h
  split at h
  · simp only [Bool.and_eq_true, beq_iff_eq] at h
    obtain ⟨⟨rfl, rfl⟩, hperm⟩ := h
    exact Or.inr ⟨_, _, _, _, rfl, rfl, List.isPerm_iff.mp hperm⟩
  · exact Or.inl (by simpa using h)

theorem alike_refl (a : Line) : a.alike a := by
  unfold alike
  split
  · simp [Parameters.alike, List.isPerm_iff]
  · simp

theorem alike_iff_reordered : a.alike b ↔ a = b ∨ a.Reordered b := by
  constructor
  · intro h
    rcases alike_cases h with rfl | ⟨form, name, p, q, rfl, rfl, hperm⟩
    · exact Or.inl rfl
    · have halike : p.alike q := List.isPerm_iff.mpr hperm
      exact Or.inr (.tag (Parameters.alike_iff_get?.mp halike))
  · rintro (rfl | h)
    · exact alike_refl a
    · cases h with
      | tag h => simp [alike, Parameters.alike_iff_get?.mpr h]

theorem alike_equivalence : Equivalence fun a b : Line => a.alike b where
  refl := alike_refl
  symm h := by
    rw [alike_iff_reordered] at h ⊢
    exact h.imp Eq.symm Reordered.symm
  trans h k := by
    rw [alike_iff_reordered] at h k ⊢
    rcases h with rfl | h
    · exact k
    · rcases k with rfl | k
      · exact Or.inr h
      · exact Or.inr (h.trans k)

theorem fieldPrint_eq_of_alike (h : a.alike b) : a.fieldPrint = b.fieldPrint := by
  rcases alike_iff_reordered.mp h with rfl | h
  · rfl
  · cases h with
    | tag => rfl

end Line

namespace Located

variable {α β : Type} {same : α → α → Bool} {f : α → β} {a b : Located α}
  {as bs : List (Located α)}

theorem alike_iff :
    alike same a b ↔ same a.content b.content ∧ a.raw = b.raw ∧ a.span = b.span := by
  simp [alike, and_assoc]

theorem alike_equivalence (h : Equivalence fun a b => same a b) :
    Equivalence fun a b => alike same a b where
  refl a := alike_iff.mpr ⟨h.refl a.content, rfl, rfl⟩
  symm hab := by
    obtain ⟨hcontent, hraw, hspan⟩ := alike_iff.mp hab
    exact alike_iff.mpr ⟨h.symm hcontent, hraw.symm, hspan.symm⟩
  trans hab hbc := by
    obtain ⟨hcontent, hraw, hspan⟩ := alike_iff.mp hab
    obtain ⟨hcontent', hraw', hspan'⟩ := alike_iff.mp hbc
    exact alike_iff.mpr ⟨h.trans hcontent hcontent', hraw.trans hraw', hspan.trans hspan'⟩

theorem map_eq_of_alike (hf : ∀ a b, same a b → f a = f b) (h : alike same a b) :
    a.map f = b.map f := by
  obtain ⟨hcontent, hraw, hspan⟩ := alike_iff.mp h
  rw [map, map, hf _ _ hcontent, hraw, hspan]

theorem allAlike_iff : allAlike same as bs ↔ List.Forall₂ (fun a b => alike same a b) as bs := by
  induction as generalizing bs with
  | nil => cases bs <;> simp [allAlike]
  | cons a as ih => cases bs <;> simp [allAlike, ih]

theorem allAlike_equivalence (h : Equivalence fun a b => same a b) :
    Equivalence fun as bs => allAlike same as bs where
  refl as := allAlike_iff.mpr (List.forall₂_same.mpr fun a _ => (alike_equivalence h).refl a)
  symm hab := by
    rw [allAlike_iff] at hab ⊢
    exact (hab.imp fun _ _ => (alike_equivalence h).symm).flip
  trans {as bs cs} hab hbc := by
    rw [allAlike_iff] at hab hbc ⊢
    induction hab generalizing cs with
    | nil => exact hbc
    | cons hab _ ih => cases hbc with
      | cons hbc hrest => exact .cons ((alike_equivalence h).trans hab hbc) (ih hrest)

theorem map_map_eq_of_allAlike (hf : ∀ a b, same a b → f a = f b) (h : allAlike same as bs) :
    as.map (·.map f) = bs.map (·.map f) := by
  rw [allAlike_iff] at h
  induction h with
  | nil => rfl
  | cons hab _ ih => rw [List.map_cons, List.map_cons, map_eq_of_alike hf hab, ih]

end Located

namespace Document

variable {a b : Document} {as : List (Located Line)}

theorem alike_empty_iff : empty.alike b ↔ b = empty := by
  cases b <;> simp [alike]

theorem alike_script_iff :
    (script as).alike b ↔ ∃ bs, b = script bs ∧ Located.allAlike Line.alike as bs := by
  cases b <;> simp [alike]

theorem alike_equivalence : Equivalence fun a b : Document => a.alike b := by
  have hlines := Located.allAlike_equivalence Line.alike_equivalence
  refine ⟨?refl, ?symm, ?trans⟩
  case refl =>
    intro a
    cases a with
    | empty => exact alike_empty_iff.mpr rfl
    | script as => exact alike_script_iff.mpr ⟨as, rfl, hlines.refl as⟩
  case symm =>
    intro a b h
    cases a with
    | empty =>
      obtain rfl := alike_empty_iff.mp h
      exact h
    | script as =>
      obtain ⟨bs, rfl, hab⟩ := alike_script_iff.mp h
      exact alike_script_iff.mpr ⟨as, rfl, hlines.symm hab⟩
  case trans =>
    intro a b c h k
    cases a with
    | empty =>
      obtain rfl := alike_empty_iff.mp h
      exact k
    | script as =>
      obtain ⟨bs, rfl, hab⟩ := alike_script_iff.mp h
      obtain ⟨cs, rfl, hbc⟩ := alike_script_iff.mp k
      exact alike_script_iff.mpr ⟨cs, rfl, hlines.trans hab hbc⟩

theorem kind_eq_of_alike (h : a.alike b) : a.kind = b.kind := by
  cases a with
  | empty => rw [alike_empty_iff.mp h]
  | script as =>
    obtain ⟨bs, rfl, -⟩ := alike_script_iff.mp h
    rfl

theorem linePrints_eq_of_alike (h : a.alike b) :
    a.lines.map (·.map Line.fieldPrint) = b.lines.map (·.map Line.fieldPrint) := by
  cases a with
  | empty => rw [alike_empty_iff.mp h]
  | script as =>
    obtain ⟨bs, rfl, hall⟩ := alike_script_iff.mp h
    exact Located.map_map_eq_of_allAlike (fun _ _ => Line.fieldPrint_eq_of_alike) hall

end Document

/-- How texts, offsets, and what stands for an absent field or a flag are hashed, and how the hashes
of parts make up the hash of a whole. Nothing is asked of it. -/
structure Hashing (H : Type) where
  text : Text → H
  offset : Nat → H
  absent : H
  flag : H
  tuple : List H → H

namespace Hashing

variable {H : Type}

def field (hashing : Hashing H) (missing : H) : Option Text → H
  | none => missing
  | some text => hashing.text text

def place (hashing : Hashing H) : Option Span → H
  | none => hashing.absent
  | some span => hashing.tuple [hashing.offset span.start, hashing.offset span.stop]

def located (hashing : Hashing H) (missing : H) (print : Located FieldPrint) : H :=
  hashing.tuple (print.content.map (hashing.field missing) ++
    [hashing.text print.raw, hashing.place print.span])

def line (hashing : Hashing H) (line : Located Line) : H :=
  hashing.located hashing.absent (line.map Line.fieldPrint)

def token (hashing : Hashing H) (token : Located Token) : H :=
  hashing.located hashing.flag (token.map Token.fieldPrint)

def document (hashing : Hashing H) (document : Located Document) : H :=
  match document.content with
  | .empty => hashing.tuple [hashing.text document.raw, hashing.place document.span]
  | .script lines =>
    hashing.tuple [hashing.tuple (lines.map hashing.line), hashing.text document.raw,
      hashing.place document.span]

end Hashing

inductive Node.Reordered : Node → Node → Prop where
  | line {a b : Line} {raw : Text} {span : Option Span} (h : a.Reordered b) :
      Reordered (.line ⟨a, raw, span⟩) (.line ⟨b, raw, span⟩)
  | script {a b : Line} {raw whole : Text} {span place : Option Span}
      (before after : List (Located Line)) (h : a.Reordered b) :
      Reordered (.document ⟨.script (before ++ ⟨a, raw, span⟩ :: after), whole, place⟩)
        (.document ⟨.script (before ++ ⟨b, raw, span⟩ :: after), whole, place⟩)

namespace Node

variable {H : Type} {a b : Node} {d e : Located Document} {l : Located Line} {t : Located Token}

def hash (hashing : Hashing H) : Node → H
  | document d => hashing.document d
  | line l => hashing.line l
  | token t => hashing.token t

structure SameHash (a b : Node) : Prop where
  fingerprint_eq : a.fingerprint = b.fingerprint
  hash_eq : ∀ {H : Type} (hashing : Hashing H), a.hash hashing = b.hash hashing

theorem alike_document_iff :
    (document d).alike b ↔ ∃ e, b = document e ∧ d.alike Document.alike e := by
  cases b <;> simp [alike]

theorem alike_line_iff : (line l).alike b ↔ ∃ m, b = line m ∧ l.alike Line.alike m := by
  cases b <;> simp [alike]

theorem alike_token_iff : (token t).alike b ↔ b = token t := by
  cases b with
  | document e => simp [alike]
  | line m => simp [alike]
  | token u => simp [alike, eq_comm (a := u)]

theorem alike_equivalence : Equivalence fun a b : Node => a.alike b := by
  have hdocument := Located.alike_equivalence Document.alike_equivalence
  have hline := Located.alike_equivalence Line.alike_equivalence
  refine ⟨?refl, ?symm, ?trans⟩
  case refl =>
    intro a
    cases a with
    | document d => exact alike_document_iff.mpr ⟨d, rfl, hdocument.refl d⟩
    | line l => exact alike_line_iff.mpr ⟨l, rfl, hline.refl l⟩
    | token t => exact alike_token_iff.mpr rfl
  case symm =>
    intro a b h
    cases a with
    | document d =>
      obtain ⟨e, rfl, hde⟩ := alike_document_iff.mp h
      exact alike_document_iff.mpr ⟨d, rfl, hdocument.symm hde⟩
    | line l =>
      obtain ⟨m, rfl, hlm⟩ := alike_line_iff.mp h
      exact alike_line_iff.mpr ⟨l, rfl, hline.symm hlm⟩
    | token t =>
      obtain rfl := alike_token_iff.mp h
      exact h
  case trans =>
    intro a b c h k
    cases a with
    | document d =>
      obtain ⟨e, rfl, hde⟩ := alike_document_iff.mp h
      obtain ⟨f, rfl, hef⟩ := alike_document_iff.mp k
      exact alike_document_iff.mpr ⟨f, rfl, hdocument.trans hde hef⟩
    | line l =>
      obtain ⟨m, rfl, hlm⟩ := alike_line_iff.mp h
      obtain ⟨n, rfl, hmn⟩ := alike_line_iff.mp k
      exact alike_line_iff.mpr ⟨n, rfl, hline.trans hlm hmn⟩
    | token t =>
      obtain rfl := alike_token_iff.mp h
      exact k

/-- The kinds are needed: an empty document and a script without lines have one fingerprint, but
only the script hashes its lines. -/
theorem hash_document_eq (hashing : Hashing H) (hkind : d.content.kind = e.content.kind)
    (h : (document d).fingerprint = (document e).fingerprint) :
    (document d).hash hashing = (document e).hash hashing := by
  obtain ⟨d, raw, span⟩ := d
  obtain ⟨e, raw', span'⟩ := e
  obtain ⟨⟨-, rfl, rfl⟩, hlines⟩ : (True ∧ raw = raw' ∧ span = span') ∧
      d.lines.map (·.map Line.fieldPrint) = e.lines.map (·.map Line.fieldPrint) := by
    simpa [fingerprint, Located.map] using h
  cases d with
  | empty => cases e with
    | empty => rfl
    | script bs => cases hkind
  | script as => cases e with
    | empty => cases hkind
    | script bs =>
      have hhashes := congrArg (List.map (hashing.located hashing.absent)) hlines
      rw [List.map_map, List.map_map] at hhashes
      change as.map hashing.line = bs.map hashing.line at hhashes
      simp only [hash, Hashing.document, hhashes]

theorem sameHash_of_alike (h : a.alike b) : a.SameHash b := by
  cases a with
  | document d =>
    obtain ⟨e, rfl, hde⟩ := alike_document_iff.mp h
    obtain ⟨hcontent, -, -⟩ := Located.alike_iff.mp hde
    have hfingerprint : (document d).fingerprint = (document e).fingerprint := by
      rw [fingerprint, fingerprint, Located.map_eq_of_alike (fun _ _ _ => rfl) hde,
        Document.linePrints_eq_of_alike hcontent]
    refine ⟨hfingerprint, ?_⟩
    intro H hashing
    exact hash_document_eq hashing (Document.kind_eq_of_alike hcontent) hfingerprint
  | line l =>
    obtain ⟨m, rfl, hlm⟩ := alike_line_iff.mp h
    have hprint := Located.map_eq_of_alike (fun _ _ h => Line.fieldPrint_eq_of_alike h) hlm
    refine ⟨by rw [fingerprint, fingerprint, hprint], ?_⟩
    intro H hashing
    exact congrArg (hashing.located hashing.absent) hprint
  | token t =>
    obtain rfl := alike_token_iff.mp h
    exact ⟨rfl, fun _ => rfl⟩

theorem alike_of_reordered (h : a.Reordered b) : a.alike b := by
  cases h with
  | line h =>
    have hline := Line.alike_iff_reordered.mpr (Or.inr h)
    exact alike_line_iff.mpr ⟨_, rfl, Located.alike_iff.mpr ⟨hline, rfl, rfl⟩⟩
  | @script a b raw whole span place before after h =>
    have hline := Line.alike_iff_reordered.mpr (Or.inr h)
    have hrefl := Located.alike_equivalence Line.alike_equivalence
    have hlines : List.Forall₂ (fun a b => Located.alike Line.alike a b)
        (before ++ ⟨a, raw, span⟩ :: after) (before ++ ⟨b, raw, span⟩ :: after) :=
      List.rel_append (List.forall₂_same.mpr fun line _ => hrefl.refl line)
        (.cons (Located.alike_iff.mpr ⟨hline, rfl, rfl⟩)
          (List.forall₂_same.mpr fun line _ => hrefl.refl line))
    have hscript := Document.alike_script_iff.mpr ⟨_, rfl, Located.allAlike_iff.mpr hlines⟩
    exact alike_document_iff.mpr ⟨_, rfl, Located.alike_iff.mpr ⟨hscript, rfl, rfl⟩⟩

theorem reorderings_of_forall₂ {as bs : List (Located Line)} {whole : Text} {place : Option Span}
    (h : List.Forall₂ (fun a b => Located.alike Line.alike a b) as bs)
    (before : List (Located Line)) :
    Relation.ReflTransGen Reordered (document ⟨.script (before ++ as), whole, place⟩)
      (document ⟨.script (before ++ bs), whole, place⟩) := by
  -- The lines in front are done already, so they grow by one line at each step.
  induction h generalizing before with
  | nil => exact .refl
  | @cons a b as bs hab _ ih =>
    have hrest := ih (before ++ [b])
    rw [List.append_assoc, List.append_assoc] at hrest
    obtain ⟨a, raw, span⟩ := a
    obtain ⟨b, raw', span'⟩ := b
    obtain ⟨hcontent, rfl, rfl⟩ := Located.alike_iff.mp hab
    rcases Line.alike_iff_reordered.mp hcontent with rfl | hreordered
    · exact hrest
    · exact .head (.script before as hreordered) hrest

theorem reorderings_of_alike (h : a.alike b) : Relation.ReflTransGen Reordered a b := by
  cases a with
  | document d =>
    obtain ⟨e, rfl, hde⟩ := alike_document_iff.mp h
    obtain ⟨d, raw, span⟩ := d
    obtain ⟨e, raw', span'⟩ := e
    obtain ⟨hcontent, rfl, rfl⟩ := Located.alike_iff.mp hde
    cases d with
    | empty =>
      obtain rfl := Document.alike_empty_iff.mp hcontent
      exact .refl
    | script as =>
      obtain ⟨bs, rfl, hall⟩ := Document.alike_script_iff.mp hcontent
      exact reorderings_of_forall₂ (Located.allAlike_iff.mp hall) []
  | line l =>
    obtain ⟨m, rfl, hlm⟩ := alike_line_iff.mp h
    obtain ⟨l, raw, span⟩ := l
    obtain ⟨m, raw', span'⟩ := m
    obtain ⟨hcontent, rfl, rfl⟩ := Located.alike_iff.mp hlm
    rcases Line.alike_iff_reordered.mp hcontent with rfl | hreordered
    · exact .refl
    · exact .single (.line hreordered)
  | token t =>
    obtain rfl := alike_token_iff.mp h
    exact .refl

theorem alike_of_reorderings (h : Relation.ReflTransGen Reordered a b) : a.alike b := by
  induction h with
  | refl => exact alike_equivalence.refl a
  | tail _ hstep ih => exact alike_equivalence.trans ih (alike_of_reordered hstep)

/-- Likeness is an equivalence, and nodes that are alike have the same hash. Reordering the
parameters of tags, however many of them and wherever they stand, leads from a node to one that is
alike and has its hash, and there is no other way to get one. -/
theorem alike_respects_hash :
    Equivalence (fun a b : Node => a.alike b) ∧
    (∀ a b : Node, a.alike b → a.SameHash b) ∧
    ∀ a b : Node, Relation.ReflTransGen Reordered a b ↔ a.alike b ∧ a.SameHash b := by
  refine ⟨alike_equivalence, fun a b => sameHash_of_alike, ?_⟩
  intro a b
  constructor
  · intro h
    have halike := alike_of_reorderings h
    exact ⟨halike, sameHash_of_alike halike⟩
  · intro h
    exact reorderings_of_alike h.1

theorem alike_respects_hash_swapped : ∃ a b : Node,
    a = document ⟨.script [⟨.narration, ['#', '\n'], none⟩, ⟨.tag .line ['t']
      (.ofList [(['b'], .flag), (['c'], .text ['d'])]), ['@'], none⟩], [], none⟩ ∧
    b = document ⟨.script [⟨.narration, ['#', '\n'], none⟩, ⟨.tag .line ['t']
      (.ofList [(['c'], .text ['d']), (['b'], .flag)]), ['@'], none⟩], [], none⟩ ∧
    Relation.ReflTransGen Reordered a b ∧ a ≠ b ∧ a.alike b ∧ a.SameHash b := by
  have hreordered : Line.Reordered
      (.tag .line ['t'] (.ofList [(['b'], .flag), (['c'], .text ['d'])]))
      (.tag .line ['t'] (.ofList [(['c'], .text ['d']), (['b'], .flag)])) :=
    .tag (Parameters.alike_iff_get?.mp (by decide))
  have hrun := Relation.ReflTransGen.single
    (@Reordered.script _ _ ['@'] [] none none [⟨.narration, ['#', '\n'], none⟩] [] hreordered)
  exact ⟨_, _, rfl, rfl, hrun, by decide, (alike_respects_hash.2.2 _ _).mp hrun⟩

end Node

end Playscript
