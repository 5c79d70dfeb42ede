import StaticTyping.Proofs.Aliases.Unfolded

/-! Aliases without cycles. Each of them gets the type that its target unfolds to, in whatever order
declarations come. A type parameter can stand in the way: an alias that is first met where one of the
names in its target is a type parameter takes that for its meaning. -/

namespace StaticTyping

open Relation List Program ScopeStack Ty

namespace AllNamed

variable {p : Program} {pairs : List (StmtId × SymbolId)} {b t : State}

lemma declares_inj (h : AllNamed p pairs b) {a c : Symbol} (ha : p.Declares a) (hc : p.Declares c)
    (hname : a.name = c.name) : a = c := by
  obtain ⟨pair, hpair, rfl⟩ := h.exists_pair ha
  obtain ⟨other, hother, rfl⟩ := h.exists_pair hc
  have hfound := h.found hpair
  rw [hname, h.found hother] at hfound
  rw [Option.some.inj hfound]

lemma lookup_extends (h : AllNamed p pairs b) (hscopes : b.scopes.Extends t.scopes) {name : String}
    {id : SymbolId} (hid : b.scopes.lookupType name = some id) :
    t.scopes.lookupType name = some id := by
  have houter := hscopes.outer
  rw [h.root] at houter
  rw [lookupType_root (forall₂_nil_left_iff.mp houter)]
  rw [lookupType_root h.root] at hid
  exact hscopes.inner.types name id hid

end AllNamed

namespace Program

variable {p : Program} {items : List StmtId}

/-- The program with its declarations in another order. -/
def inOrder (p : Program) (items : List StmtId) : Program := { p with items }

variable (h : items.Perm p.items)

include h

lemma declares_inOrder : (p.inOrder items).Declares = p.Declares := by
  funext symbol
  simp only [Declares, inOrder, h.mem_iff]
  rfl

lemma aliases_inOrder : (p.inOrder items).Aliases = p.Aliases := by
  funext name target
  simp only [Aliases, declares_inOrder h]

lemma aliasRefers_inOrder : (p.inOrder items).AliasRefers = p.AliasRefers := by
  funext name other
  simp only [AliasRefers, aliases_inOrder h]

lemma typeNames_inOrder : (p.inOrder items).typeNames.Perm p.typeNames := h.filterMap p.typeName?

end Program

/-- The alias has the one type that its target unfolds to, up to the symbols behind names. -/
def State.HasUnfolding (s : State) (p : Program) (name : String) (target : TypeExpr) : Prop :=
  ∃ ty, s.AliasHas name ty ∧ Unfolds p.Declares target ty.forget ∧
    ∀ other, Unfolds p.Declares target other → other = ty.forget

lemma Check.registered_unfolds (env : Env) (imports : List Ident)
    (hnodup : env.program.typeNames.Nodup) (huncaptured : env.program.Uncaptured)
    (hacyclic : ∀ name, ¬TransGen env.program.AliasRefers name name) :
    (registered env imports).diagnostics.count .aliasCycle = 0 ∧
    ∀ name target, env.program.Aliases name target →
      (registered env imports).HasUnfolding env.program name target := by
  refine registered_of_parts (Q := fun t => t.diagnostics.count .aliasCycle = 0 ∧
    ∀ name target, env.program.Aliases name target → t.HasUnfolding env.program name target) hnodup
    fun pairs b hb => ?_
  have hextends := Rule.registerParts_extends env pairs b
  have hparts := registerParts_uncaptured hb (faithful_kept hb hacyclic) huncaptured (.start hb)
  refine (hparts.and hextends).mono ?_
  rintro _ t ⟨⟨hwaiting, ht⟩, hscopes⟩
  refine ⟨ht.calm, fun name target halias => ?_⟩
  obtain ⟨id, hlookup, rfl, htarget⟩ := hb.exists_alias halias
  have hsome : (b.symbols.get id).aliasTarget.isSome := by simp [htarget]
  obtain ⟨ty, hty⟩ := Option.ne_none_iff_exists'.mp (hwaiting.waiting hsome)
  have hunfolds := ht.known htarget hty
  refine ⟨ty, ⟨id, hb.lookup_extends hscopes hlookup, hty⟩, hunfolds, fun other hother => ?_⟩
  exact hother.unique (fun _ _ => hb.declares_inj) hunfolds

/-- Where no alias leads to itself, no cycle is reported, and each alias gets the type that its target
unfolds to, unless one of the names that the target mentions is a type parameter in an earlier
declaration. The order of declarations makes no other difference to the types of aliases. -/
theorem Check.registered_aliases_unfold (env : Env) (imports : List Ident)
    (hnodup : env.program.typeNames.Nodup) (huncaptured : env.program.Uncaptured)
    (hacyclic : ∀ name, ¬TransGen env.program.AliasRefers name name) :
    (registered env imports).diagnostics.count .aliasCycle = 0 ∧
    ∀ name target, env.program.Aliases name target → ∃ ty full,
      (registered env imports).AliasHas name ty ∧ (ty == full) = true ∧
      Unfolds env.program.Declares target full ∧
      (∀ other, Unfolds env.program.Declares target other → other = full) ∧
      ∀ items, items.Perm env.program.items → (env.program.inOrder items).Uncaptured → ∃ ty',
        (registered ⟨env.program.inOrder items, env.options⟩ imports).AliasHas name ty' ∧
        (ty' == ty) = true := by
  obtain ⟨hcalm, hhas⟩ := registered_unfolds env imports hnodup huncaptured hacyclic
  refine ⟨hcalm, fun name target halias => ?_⟩
  obtain ⟨ty, hty, hunfolds, hunique⟩ := hhas name target halias
  refine ⟨ty, ty.forget, hty, (same_forget ty).1, hunfolds, hunique, fun items hitems hother => ?_⟩
  -- Declarations in another order are the same declarations.
  have hordered := (registered_unfolds ⟨env.program.inOrder items, env.options⟩ imports
    ((typeNames_inOrder hitems).nodup_iff.mpr hnodup) hother
    (by rw [aliasRefers_inOrder hitems]; exact hacyclic)).2
  obtain ⟨ty', hty', hunfolds', -⟩ :=
    hordered name target (by rw [aliases_inOrder hitems]; exact halias)
  rw [declares_inOrder hitems] at hunfolds'
  exact ⟨ty', hty', same_trans (same_forget _).1 (hunique _ hunfolds' ▸ (same_forget _).2)⟩

/-- Two aliases that lead to a record, and another record with a method that takes a value of the
first. A type parameter of the method has the name of the first record. -/
def genericMethodSample : Program where
  statements := #[
    ⟨{}, .typeAlias { name := ⟨"A", {}⟩, target := .named {} "Array" [.named {} "B" []] }⟩,
    ⟨{}, .typeAlias { name := ⟨"B", {}⟩, target := .named {} "T" [] }⟩,
    ⟨{}, .record .structType { name := ⟨"T", {}⟩ }⟩,
    ⟨{}, .record .structType { name := ⟨"S", {}⟩, methods := [⟨4⟩] }⟩,
    ⟨{}, .function { name := ⟨"m", {}⟩, typeParams := [⟨"T", {}⟩],
                     params := [{ name := "x", type := some (.named {} "A" []) }] }⟩]
  items := [⟨0⟩, ⟨1⟩, ⟨2⟩, ⟨3⟩]

namespace genericMethodSample

variable {name other : String} {target : TypeExpr}

lemma aliases_iff : genericMethodSample.Aliases name target ↔
    name = "A" ∧ target = .named {} "Array" [.named {} "B" []] ∨
      name = "B" ∧ target = .named {} "T" [] := by
  constructor
  · rintro ⟨symbol, ⟨id, hid, hsymbol⟩, rfl, htarget⟩
    have hitems : id ∈ [(⟨0⟩ : StmtId), ⟨1⟩, ⟨2⟩, ⟨3⟩] := hid
    simp only [mem_cons, not_mem_nil, or_false] at hitems
    rcases hitems with rfl | rfl | rfl | rfl <;> cases hsymbol <;> cases htarget
    · exact .inl ⟨rfl, rfl⟩
    · exact .inr ⟨rfl, rfl⟩
  · rintro (⟨rfl, rfl⟩ | ⟨rfl, rfl⟩)
    · exact ⟨_, ⟨⟨0⟩, by decide, rfl⟩, rfl, rfl⟩
    · exact ⟨_, ⟨⟨1⟩, by decide, rfl⟩, rfl, rfl⟩

lemma eq_of_refers (h : genericMethodSample.AliasRefers name other) : name = "A" ∧ other = "B" := by
  obtain ⟨target, target', halias, hother, hname, -⟩ := h
  rcases aliases_iff.mp halias with ⟨rfl, rfl⟩ | ⟨rfl, rfl⟩
  · rcases aliases_iff.mp hother with ⟨rfl, -⟩ | ⟨rfl, -⟩
    · exact absurd (show "A" ∈ ["Array", "B"] from hname) (by decide)
    · exact ⟨rfl, rfl⟩
  · obtain rfl := List.mem_singleton.mp (show other ∈ ["T"] from hname)
    rcases aliases_iff.mp hother with ⟨hT, -⟩ | ⟨hT, -⟩ <;> exact absurd hT (by decide)

lemma acyclic (name : String) : ¬TransGen genericMethodSample.AliasRefers name name := by
  intro hcycle
  obtain ⟨_, hfirst, -⟩ := TransGen.head'_iff.mp hcycle
  obtain ⟨_, -, hlast⟩ := TransGen.tail'_iff.mp hcycle
  have hsame := (eq_of_refers hfirst).1.symm.trans (eq_of_refers hlast).2
  exact absurd hsame (by decide)

end genericMethodSample

theorem Check.registered_aliases_unfold_sample : genericMethodSample.Uncaptured ∧
    (registered ⟨genericMethodSample, {}⟩ []).diagnostics.count .aliasCycle = 0 ∧
    ∃ ty ty', (registered ⟨genericMethodSample, {}⟩ []).AliasHas "A" ty ∧
      (registered ⟨genericMethodSample.inOrder [⟨2⟩, ⟨1⟩, ⟨0⟩, ⟨3⟩], {}⟩ []).AliasHas "A" ty' ∧
      (ty' == ty) = true := by
  obtain ⟨hcalm, hhas⟩ := registered_aliases_unfold ⟨genericMethodSample, {}⟩ [] (by decide) (by decide)
    genericMethodSample.acyclic
  obtain ⟨ty, _, hty, -, -, -, horder⟩ :=
    hhas "A" _ (genericMethodSample.aliases_iff.mpr (.inl ⟨rfl, rfl⟩))
  obtain ⟨ty', hty', hsame⟩ := horder [⟨2⟩, ⟨1⟩, ⟨0⟩, ⟨3⟩] (by decide) (by decide)
  exact ⟨by decide, hcalm, ty, ty', hty, hty', hsame⟩

/-- If the record with the method comes first, its method is where the aliases are met first, and the
type parameter is taken for the record of its name. -/
theorem Check.registered_aliases_unfold_captured :
    (∀ id ∈ genericMethodSample.items, (genericMethodSample.stmt id).kind.typeParams = []) ∧
    genericMethodSample.typeNames.Nodup ∧
    (∀ name, ¬TransGen genericMethodSample.AliasRefers name name) ∧
    genericMethodSample.Aliases "B" (.named {} "T" []) ∧
    Unfolds genericMethodSample.Declares (.named {} "T" []) (.named ⟨"T", none, false⟩ none) ∧
    (registered ⟨genericMethodSample.inOrder [⟨3⟩, ⟨0⟩, ⟨1⟩, ⟨2⟩], {}⟩ []).AliasHas "B" (.param "T") ∧
    (Ty.param "T" == .named ⟨"T", none, false⟩ none) = false ∧
    (registered ⟨genericMethodSample, {}⟩ []).AliasHas "B" (.named ⟨"T", some ⟨2⟩, false⟩ none) := by
  have hT : genericMethodSample.Declares { name := "T", span := {}, kind := .structType } :=
    ⟨⟨2⟩, by decide, rfl⟩
  have hnone (a : TypeExpr) (t : Ty) (hat : (a, t) ∈ ([] : List TypeExpr).zip ([] : List Ty)) :
      Unfolds genericMethodSample.Declares a t := absurd hat not_mem_nil
  have hunfolds : Unfolds genericMethodSample.Declares (.named {} "T" [])
      (.named ⟨"T", none, false⟩ none) := .nominal rfl hnone (by decide) hT rfl
  have hdiffer : (Ty.param "T" == .named ⟨"T", none, false⟩ none) = false := by
    simp [BEq.beq, same]
  exact ⟨by decide, by decide, genericMethodSample.acyclic,
    genericMethodSample.aliases_iff.mpr (.inr ⟨rfl, rfl⟩), hunfolds, ⟨⟨2⟩, rfl, rfl⟩, hdiffer,
    ⟨⟨1⟩, rfl, rfl⟩⟩

end StaticTyping
