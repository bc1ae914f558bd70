/-
Two ways of reading, compared step by step.

The grammar is written over the steps of `Reading`, so a relation between two ways
of reading that every single step respects holds of everything that grammars read.
`Relates` lists what has to be shown of the steps, `Relates.readAbove` is the
conclusion, and what lies between follows the definitions of the parsers one by
one. A relation that has to know where elements begin is shown of elements as a
whole instead (`RelatesParts`).

With the same way on both sides a relation is a property of what is read. The
memory, the cursor and the places that are reached are all treated like this, and
none of them needs an induction over grammars of its own.
-/
import Bracemark.Proofs.Patterns

set_option autoImplicit false

namespace Bracemark

open Reading

variable {m n : Type → Type} [Reading m] [Reading n]

/-- A relation between two ways of reading that is respected by each step of an
element up to its content and after it. The content is read by `inner` and
`inner'`. None of these steps asks for a local flag. -/
structure RelatesElements (R : ⦃α : Type⦄ → m α → n α → Prop) (inner : Grammar → m Node)
    (inner' : Grammar → n Node) : Prop where
  pure {α : Type} (a : α) : R (pure a : m α) (pure a)
  bind {α β : Type} {p : m α} {p' : n α} {f : α → m β} {f' : α → n β} :
    R p p' → (∀ a, R (f a) (f' a)) → R (p >>= f) (p' >>= f')
  fail {α : Type} : R (fail : m α) fail
  here : R (here : m Place) here
  ofPlace {α : Type} {step : Place → Option (α × Place)} :
    Advances step → R (ofPlace step : m α) (ofPlace step)
  orElse {α : Type} {p q : m α} {p' q' : n α} : R p p' → R q q' → R (orElse p q) (orElse p' q')
  nested (g : Grammar) : R (nested [] (inner g)) (nested [] (inner' g))

/-- A relation between two ways of reading that is respected by each step but the one that
looks for elements. -/
structure RelatesSteps (R : ⦃α : Type⦄ → m α → n α → Prop) (inner : Grammar → m Node)
    (inner' : Grammar → n Node) : Prop extends RelatesElements R inner inner' where
  many {α : Type} {p : m α} {p' : n α} (least : Nat) (most : Option Nat) :
    R p p' → R (many p least most) (many p' least most)
  localFlag (key : String) : R (localFlag key : m Bool) (localFlag key)
  nesting : R (nesting : m Nat) nesting
  inCell {α : Type} {p : m α} {p' : n α} :
    R p p' → R (inFrame Parser.cellFrame p) (inFrame Parser.cellFrame p')

/-- A relation between two ways of reading that is respected by each step, where an element of
the catalogue in force is read as one step. -/
structure RelatesParts (R : ⦃α : Type⦄ → m α → n α → Prop) (inner : Grammar → m Node)
    (inner' : Grammar → n Node) : Prop extends RelatesSteps R inner inner' where
  element : R (Parser.element inner) (Parser.element inner')

/-- A relation between two ways of reading that each step respects. -/
structure Relates (R : ⦃α : Type⦄ → m α → n α → Prop) (inner : Grammar → m Node)
    (inner' : Grammar → n Node) : Prop extends RelatesSteps R inner inner' where
  recalling : (∀ forms, R (Parser.ofCatalog inner forms) (Parser.ofCatalog inner' forms)) →
    R (catalog >>= fun forms => recalling (Parser.ofCatalog inner forms))
      (catalog >>= fun forms => recalling (Parser.ofCatalog inner' forms))

section

variable {R : ⦃α : Type⦄ → m α → n α → Prop} {inner : Grammar → m Node}
  {inner' : Grammar → n Node}

namespace RelatesElements

/-! ## Small steps -/

theorem require (h : RelatesElements R inner inner') (condition : Bool) :
    R (require condition : m Unit) (require condition) := by
  cases condition
  · exact h.fail
  · exact h.pure ()

theorem ofOption {α : Type} (h : RelatesElements R inner inner') (o : Option α) :
    R (ofOption o : m α) (ofOption o) := by
  cases o with
  | none => exact h.fail
  | some a => exact h.pure a

theorem optional {α : Type} (h : RelatesElements R inner inner') {p : m α} {p' : n α}
    (hp : R p p') : R (optional p) (optional p') :=
  h.orElse (h.bind hp fun a => h.pure (some a)) (h.pure none)

theorem pattern (h : RelatesElements R inner inner') (p : Pattern) :
    R (pattern p : m Capture) (pattern p) :=
  h.ofPlace (advances_pattern p)

theorem exactly (h : RelatesElements R inner inner') (cs : List Char) :
    R (exactly cs : m Unit) (exactly cs) :=
  h.ofPlace (advances_exactly cs)

/-! ## Elements -/

theorem content (h : RelatesElements R inner inner') (form : Form) :
    R (Parser.content inner form) (Parser.content inner' form) := by
  refine h.bind (h.optional (h.pattern _)) fun split => ?_
  cases split with
  | none => exact h.pure []
  | some _ =>
    refine h.bind h.here fun place => h.bind (h.require _) fun _ => ?_
    refine h.bind (h.nested _) fun read => h.bind (h.require _) fun _ => ?_
    exact h.pure _

theorem ofForm (h : RelatesElements R inner inner') (form : Form) :
    R (Parser.ofForm inner form) (Parser.ofForm inner' form) := by
  refine h.bind h.here fun start => h.bind (h.exactly _) fun _ => ?_
  refine h.bind (h.pattern _) fun named => h.bind (h.require _) fun _ => ?_
  refine h.bind (h.ofPlace advances_arguments) fun as => ?_
  refine h.bind (h.ofOption _) fun shape => h.bind (h.content form) fun nodes => ?_
  refine h.bind (h.pattern _) fun _ => h.bind h.here fun stop => ?_
  exact h.ofOption _

theorem unknown (h : RelatesElements R inner inner') :
    R (Parser.unknown inner) (Parser.unknown inner') := by
  refine h.bind h.here fun start => h.bind (h.exactly _) fun _ => ?_
  refine h.bind (h.nested _) fun read => h.bind (h.optional (h.exactly _)) fun closing => ?_
  exact h.bind h.here fun stop => h.pure _

theorem ofCatalog (h : RelatesElements R inner inner') (forms : Catalog) :
    R (Parser.ofCatalog inner forms) (Parser.ofCatalog inner' forms) := by
  induction forms with
  | nil => exact h.unknown
  | cons form forms ih => exact h.orElse (h.ofForm form) ih

end RelatesElements

namespace RelatesSteps

theorem exhausted (h : RelatesSteps R inner inner') : R (exhausted : m Bool) exhausted :=
  h.bind h.nesting fun _ => h.pure _

/-! ## Pieces of text -/

theorem text (h : RelatesSteps R inner inner') : R (Parser.text : m Node) Parser.text := by
  refine h.bind h.here fun start => h.bind (h.localFlag _) fun inCell => ?_
  exact h.bind (h.pattern _) fun run => h.bind h.here fun stop => h.pure _

theorem escape (h : RelatesSteps R inner inner') : R (Parser.escape : m Node) Parser.escape := by
  refine h.bind h.here fun start => h.bind (h.pattern _) fun c => ?_
  exact h.bind h.here fun stop => h.pure _

theorem verbatim (h : RelatesSteps R inner inner') :
    R (Parser.verbatim : m Node) Parser.verbatim := by
  refine h.bind h.here fun start => h.bind (h.pattern _) fun opening => ?_
  refine h.bind (h.ofPlace (Parser.advances_upToFence _)) fun content => ?_
  exact h.bind h.here fun stop => h.pure _

theorem gap (h : RelatesSteps R inner inner') : R (Parser.gap : m Node) Parser.gap := by
  refine h.bind (h.localFlag _) fun inCell => h.bind (h.require _) fun _ => ?_
  refine h.bind h.here fun start => h.bind (h.pattern _) fun _ => ?_
  exact h.bind h.here fun stop => h.pure _

theorem stray (h : RelatesSteps R inner inner') : R (Parser.stray : m Node) Parser.stray := by
  refine h.bind h.here fun start => h.bind (h.localFlag _) fun outermost => ?_
  refine h.bind h.exhausted fun tooDeep => ?_
  refine h.bind (h.ofPlace Parser.advances_nextChar) fun c => h.bind (h.require _) fun _ => ?_
  exact h.bind h.here fun stop => h.pure _

end RelatesSteps

namespace RelatesParts

/-! ## Parts -/

theorem part (h : RelatesParts R inner inner') : R (Parser.part inner) (Parser.part inner') :=
  h.orElse h.gap (h.orElse h.element (h.orElse h.verbatim (h.orElse h.escape
    (h.orElse h.text h.stray))))

/-! ## Tables -/

theorem breakLine (h : RelatesParts R inner inner') :
    R (Parser.breakLine : m Node) Parser.breakLine := by
  refine h.bind h.here fun start => h.bind (h.pattern _) fun line => ?_
  refine h.bind (h.ofOption _) fun as => h.bind (h.ofOption _) fun group => ?_
  exact h.bind h.here fun stop => h.pure _

theorem blankRows (h : RelatesParts R inner inner') :
    R (Parser.blankRows : m Node) Parser.blankRows :=
  h.bind h.here fun _ => h.bind (h.pattern _) fun _ => h.pure _

theorem explicitCell (h : RelatesParts R inner inner') :
    R (Parser.explicitCell inner) (Parser.explicitCell inner') := by
  refine h.bind (h.pattern _) fun _ => h.bind (h.ofForm _) fun node => ?_
  refine h.bind (h.pattern _) fun _ => h.bind h.here fun stop => ?_
  exact h.bind (h.require _) fun _ => h.pure node

theorem contentCell (h : RelatesParts R inner inner') :
    R (Parser.contentCell inner) (Parser.contentCell inner') := by
  refine h.bind h.here fun start => h.bind (h.inCell (h.many 0 none h.part)) fun nodes => ?_
  exact h.bind h.here fun stop => h.pure _

theorem cell (h : RelatesParts R inner inner') : R (Parser.cell inner) (Parser.cell inner') :=
  h.orElse h.explicitCell h.contentCell

theorem row (h : RelatesParts R inner inner') : R (Parser.row inner) (Parser.row inner') := by
  have hnext : R (Parser.nextCell inner) (Parser.nextCell inner') :=
    h.bind (h.exactly _) fun _ => h.cell
  refine h.bind h.here fun start => h.bind h.cell fun head => ?_
  refine h.bind (h.many 0 none hnext) fun tail => h.bind h.here fun stop => ?_
  refine h.bind (h.require _) fun _ => h.bind (h.optional (h.pattern _)) fun ended => ?_
  exact h.bind h.here fun last => h.bind (h.require _) fun _ => h.pure _

/-! ## Grammars -/

theorem rule (h : RelatesParts R inner inner') (r : Rule) :
    R (r.readAbove inner) (r.readAbove inner') := by
  cases r with
  | text => exact h.text
  | escape => exact h.escape
  | verbatim => exact h.verbatim
  | gap => exact h.gap
  | stray => exact h.stray
  | element => exact h.element
  | unknown => exact h.unknown
  | part => exact h.part
  | item => exact h.ofForm .item
  | breakLine => exact h.breakLine
  | blankRows => exact h.blankRows
  | row => exact h.row

theorem readSequence (h : RelatesParts R inner inner') {p : m (List Node)} {p' : n (List Node)}
    (hp : R p p') : R (Grammar.readSequence p) (Grammar.readSequence p') :=
  h.bind h.here fun _ => h.bind hp fun _ => h.bind h.here fun _ => h.pure _

mutual

/-- What grammars read is related if parts are. -/
theorem readAbove (h : RelatesParts R inner inner') :
    ∀ g : Grammar, R (g.readAbove inner) (g.readAbove inner')
  | .literal _ => h.bind h.here fun _ => h.bind (h.exactly _) fun _ =>
      h.bind h.here fun _ => h.pure _
  | .pattern p => h.bind h.here fun _ => h.bind (h.pattern p) fun _ =>
      h.bind h.here fun _ => h.pure _
  | .sequence gs => h.readSequence (h.readAll gs)
  | .choice gs => h.readFirst gs
  | .many g least most => h.readSequence (h.many least most (h.readAbove g))
  | .optional g => h.bind h.here fun _ => h.bind (h.optional (h.readAbove g)) fun _ => h.pure _
  | .form f => h.ofForm f
  | .rule r => h.rule r

theorem readAll (h : RelatesParts R inner inner') :
    ∀ gs : List Grammar, R (Grammar.readAll inner gs) (Grammar.readAll inner' gs)
  | [] => h.pure []
  | g :: gs => h.bind (h.readAbove g) fun _ => h.bind (h.readAll gs) fun _ => h.pure _

theorem readFirst (h : RelatesParts R inner inner') :
    ∀ gs : List Grammar, R (Grammar.readFirst inner gs) (Grammar.readFirst inner' gs)
  | [] => h.fail
  | g :: gs => h.orElse (h.readAbove g) (h.readFirst gs)

end

end RelatesParts

namespace Relates

theorem element (h : Relates R inner inner') :
    R (Parser.element inner) (Parser.element inner') := by
  refine h.bind h.here fun start => h.bind h.exhausted fun tooDeep => ?_
  exact h.bind (h.require _) fun _ => h.recalling h.ofCatalog

theorem parts (h : Relates R inner inner') : RelatesParts R inner inner' :=
  { h with element := h.element }

/-- **A relation that each step respects holds of what any grammar reads.** -/
theorem readAbove (h : Relates R inner inner') (g : Grammar) :
    R (g.readAbove inner) (g.readAbove inner') :=
  h.parts.readAbove g

end Relates

end

end Bracemark
