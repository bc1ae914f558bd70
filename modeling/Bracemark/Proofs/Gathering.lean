/-
What assembly makes of some nodes.

Assembly takes text in braces and groups apart, makes pieces of text into one, and puts runs of
nodes into groups and paragraphs. It goes through many passes, but in the end there are few
things that a node of the result can be. It is one of the nodes that were assembled, or was
taken out of one of them, or is a piece of text (`Gathered`); or else it is a group or a
paragraph of such nodes (`Bundle`). A property of trees that these few ways keep is kept by
assembly.
-/
import Mathlib
import Bracemark.Node.Assembly

set_option autoImplicit false

namespace Bracemark

/-- Whether assembly may take a node of this kind apart. -/
def Kind.isLoose : Kind → Bool
  | .unknown _ | .inlineGroup => true
  | _ => false

namespace Node

/-! ## Nodes that are left and nodes that are made -/

/-- What is left of some nodes when they are assembled. -/
inductive Gathered (ns : List Node) : Node → Prop
  | member {n : Node} : n ∈ ns → Gathered ns n
  /-- The braces of text in braces become text. -/
  | brace (span : Span) (s : String) : Gathered ns (text span s)
  | inner {n c : Node} : Gathered ns n → n.kind.isLoose = true → c ∈ n.children → Gathered ns c
  /-- A piece of text grows when others join it. -/
  | grown {n m : Node} {s t : String} :
    Gathered ns n → n.kind = .text s → m.kind = .text t → m.children = n.children → Gathered ns m

/-- A group or a paragraph of what is left of some nodes. -/
structure Bundle (ns : List Node) (n : Node) : Prop where
  kind : n.kind = .inlineGroup ∨ n.kind = .paragraph
  children : ∀ c ∈ n.children, Gathered ns c

/-- The property is kept in the ways in which nodes are left. -/
structure KeptInGathering (P : Node → Prop) : Prop where
  text (span : Span) (s : String) : P (text span s)
  inner {n c : Node} : P n → n.kind.isLoose = true → c ∈ n.children → P c
  grown {n m : Node} {s t : String} :
    P n → n.kind = .text s → m.kind = .text t → m.children = n.children → P m

variable {ns : List Node} {n : Node} {run ms : List Node}

theorem Gathered.kept {P : Node → Prop} (hP : KeptInGathering P) (hns : ∀ n ∈ ns, P n)
    (h : Gathered ns n) : P n := by
  induction h with
  | member hn => exact hns _ hn
  | brace span s => exact hP.text span s
  | inner _ hloose hc ih => exact hP.inner ih hloose hc
  | grown _ hold hnew hchildren ih => exact hP.grown ih hold hnew hchildren

/-- What is left of nodes that are left of others is left of those. -/
theorem Gathered.trans (hms : ∀ m ∈ ms, Gathered ns m) (h : Gathered ms n) : Gathered ns n :=
  h.kept ⟨.brace, .inner, .grown⟩ hms

theorem Bundle.trans (hms : ∀ m ∈ ms, Gathered ns m) (h : Bundle ms n) : Bundle ns n :=
  ⟨h.kind, fun c hc => (h.children c hc).trans hms⟩

/-! ## Taking apart -/

theorem Gathered.spreadUnknown (h : Gathered ns n) : ∀ c ∈ n.spreadUnknown, Gathered ns c := by
  unfold Node.spreadUnknown
  split
  · next closed hkind =>
    intro c hc
    rcases List.mem_append.mp hc with hc | hc
    · rcases List.mem_cons.mp hc with rfl | hc
      · exact .brace _ _
      · exact .inner h (by rw [hkind]; rfl) hc
    · cases closed with
      | false => cases hc
      | true => exact List.mem_singleton.mp hc ▸ .brace _ _
  · exact List.forall_mem_singleton.mpr h

theorem Gathered.spreadGroup (h : Gathered ns n) : ∀ c ∈ n.spreadGroup, Gathered ns c := by
  unfold Node.spreadGroup
  split
  · next hkind => exact fun c hc => .inner h (by rw [hkind]; rfl) hc
  · exact List.forall_mem_singleton.mpr h

theorem Bundle.spreadGroup (h : Bundle ns n) (hn : n.isInline = true) :
    ∀ c ∈ n.spreadGroup, Gathered ns c := by
  -- A paragraph does not flow in a line, so the bundle is a group.
  rcases h.kind with hkind | hkind
  · simpa only [Node.spreadGroup, hkind] using h.children
  · rw [isInline, hkind] at hn
    cases hn

/-! ## Joining text -/

theorem Gathered.appendText (h : Gathered ns n) (s : String) (stop : Nat) :
    Gathered ns (n.appendText s stop) := by
  unfold Node.appendText
  split
  · next t hkind => exact .grown h hkind rfl rfl
  · exact h

theorem gathered_joinTextAfter (hn : Gathered ns n) (hms : ∀ m ∈ ms, Gathered ns m) :
    ∀ c ∈ joinTextAfter n ms, Gathered ns c := by
  induction ms generalizing n with
  | nil => exact List.forall_mem_singleton.mpr hn
  | cons m ms ih =>
    obtain ⟨hm, hms⟩ := List.forall_mem_cons.mp hms
    rw [joinTextAfter]
    split
    · exact ih (hn.appendText _ _) hms
    · exact List.forall_mem_cons.mpr ⟨hn, ih hm hms⟩

theorem gathered_joinText (h : ∀ m ∈ ms, Gathered ns m) : ∀ c ∈ joinText ms, Gathered ns c := by
  cases ms with
  | nil => exact List.forall_mem_nil _
  | cons m ms =>
    exact gathered_joinTextAfter (List.forall_mem_cons.mp h).1 (List.forall_mem_cons.mp h).2

/-! ## Groups and paragraphs -/

theorem bundle_groupOf (h : ∀ m ∈ run, Gathered ns m) : ∀ c ∈ groupOf run, Bundle ns c := by
  unfold groupOf
  split
  · exact List.forall_mem_nil _
  · exact List.forall_mem_singleton.mpr ⟨.inl rfl, gathered_joinText h⟩

theorem bundle_paragraphOf (h : ∀ m ∈ run, Gathered ns m) :
    ∀ c ∈ paragraphOf run, Bundle ns c := by
  unfold paragraphOf
  split
  · exact List.forall_mem_nil _
  · exact List.forall_mem_singleton.mpr ⟨.inr rfl, gathered_joinText h⟩

theorem gathered_reverse (h : ∀ m ∈ run, Gathered ns m) : ∀ m ∈ run.reverse, Gathered ns m :=
  fun m hm => h m (List.mem_reverse.mp hm)

theorem gathered_groupRunsAfter (hrun : ∀ m ∈ run, Gathered ns m)
    (hms : ∀ m ∈ ms, Gathered ns m) :
    ∀ c ∈ groupRunsAfter run ms, Gathered ns c ∨ Bundle ns c := by
  induction ms generalizing run with
  | nil => exact fun c hc => .inr (bundle_groupOf (gathered_reverse hrun) c hc)
  | cons m ms ih =>
    obtain ⟨hm, hms⟩ := List.forall_mem_cons.mp hms
    rw [groupRunsAfter]
    split
    · exact ih (List.forall_mem_cons.mpr ⟨hm, hrun⟩) hms
    · refine List.forall_mem_append.mpr ⟨fun c hc => ?_, List.forall_mem_cons.mpr ⟨.inl hm, ?_⟩⟩
      · exact .inr (bundle_groupOf (gathered_reverse hrun) c hc)
      · exact ih (List.forall_mem_nil _) hms

theorem gathered_normalize (ns : List Node) :
    ∀ c ∈ normalize ns, Gathered ns c ∨ Bundle ns c := by
  intro c hc
  refine gathered_groupRunsAfter (List.forall_mem_nil _) (fun m hm => ?_) c
    (List.mem_of_mem_filter hc)
  obtain ⟨u, hu, hm⟩ := List.mem_flatMap.mp hm
  obtain ⟨n, hn, hu⟩ := List.mem_flatMap.mp hu
  exact ((Gathered.member hn).spreadUnknown u hu).spreadGroup m hm

theorem gathered_paragraphsAfter (hrun : ∀ m ∈ run, Gathered ns m)
    (hms : ∀ m ∈ ms, Gathered ns m ∨ Bundle ns m) :
    ∀ c ∈ paragraphsAfter run ms, Gathered ns c ∨ Bundle ns c := by
  induction ms generalizing run with
  | nil => exact fun c hc => .inr (bundle_paragraphOf (gathered_reverse hrun) c hc)
  | cons m ms ih =>
    obtain ⟨hm, hms⟩ := List.forall_mem_cons.mp hms
    rw [paragraphsAfter]
    split
    · next hinline =>
      have hspread : ∀ c ∈ m.spreadGroup, Gathered ns c :=
        hm.elim Gathered.spreadGroup fun hbundle => hbundle.spreadGroup hinline
      exact ih (List.forall_mem_append.mpr ⟨gathered_reverse hspread, hrun⟩) hms
    · refine List.forall_mem_append.mpr ⟨List.forall_mem_append.mpr ⟨fun c hc => ?_, ?_⟩, ?_⟩
      · exact .inr (bundle_paragraphOf (gathered_reverse hrun) c hc)
      · split
        · exact List.forall_mem_nil _
        · exact List.forall_mem_singleton.mpr hm
      · exact ih (List.forall_mem_nil _) hms

/-! ## Assembly -/

/-- **Assembly gathers and bundles**, and makes nothing else. -/
theorem gathered_or_bundle_of_mem_assemble (n : Node) :
    ∀ c ∈ n.assemble.children, Gathered n.children c ∨ Bundle n.children c := by
  have hgrouped : ∀ c ∈ (if 1 < n.children.length
      then n.withChildren (normalize n.children) else n).children,
      Gathered n.children c ∨ Bundle n.children c := by
    split
    · exact gathered_normalize n.children
    · exact fun c hc => .inl (.member hc)
  unfold assemble
  generalize (if 1 < n.children.length then n.withChildren (normalize n.children) else n)
    = grouped at *
  dsimp only
  split
  · exact gathered_paragraphsAfter (List.forall_mem_nil _) hgrouped
  · exact hgrouped

end Node

end Bracemark
