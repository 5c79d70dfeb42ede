import StaticTyping.Proofs.Literals.Range
import StaticTyping.Proofs.Output.Sequence
import StaticTyping.Proofs.Visited.Reached

/-! Arithmetic on integer literals takes the width that is expected of it. The hint reaches every
literal, by whichever way operands hint at one another, so that each of them is held against the bounds
of that one width. -/

namespace StaticTyping

open Check Diagnostics ExprKind List Ty

/-- An integer literal where it stands. A minus right before it belongs to it, and is its place. -/
structure LiteralUse where
  span : Span
  digits : String
  negative : Bool
  deriving DecidableEq, Repr

namespace LiteralUse

def fits (width : Primitive) (use : LiteralUse) : Bool :=
  Rule.fitsWidth width use.digits use.negative

def diagnostic (width : Primitive) (use : LiteralUse) : Diagnostic :=
  (Finding.integerOutOfRange use.negative use.digits width).toDiagnostic use.span

def misfits (width : Primitive) (uses : List LiteralUse) : List Diagnostic :=
  (uses.filter fun use => !use.fits width).map (diagnostic width)

end LiteralUse

/-- The expression is built from integer literals by signs, arithmetic operators and parentheses, and
these are its literals from left to right. -/
inductive Program.LiteralArithmetic (p : Program) : ExprId → List LiteralUse → Prop
  | literal {id : ExprId} {digits : String} (hkind : (p.expr id).kind = .literal (.int digits)) :
      LiteralArithmetic p id [⟨(p.expr id).span, digits, false⟩]
  | negated {id operand : ExprId} {digits : String} (hkind : (p.expr id).kind = .unary .minus operand)
      (hoperand : (p.expr operand).kind = .literal (.int digits)) :
      LiteralArithmetic p id [⟨(p.expr id).span, digits, true⟩]
  | signed {id operand : ExprId} {op : UnaryOp} {uses : List LiteralUse}
      (hkind : (p.expr id).kind = .unary op operand) (hop : op ≠ .not)
      (hother : op = .minus → ∀ digits, (p.expr operand).kind ≠ .literal (.int digits))
      (hoperand : LiteralArithmetic p operand uses) : LiteralArithmetic p id uses
  | group {id inner : ExprId} {uses : List LiteralUse} (hkind : (p.expr id).kind = .group inner)
      (hinner : LiteralArithmetic p inner uses) : LiteralArithmetic p id uses
  | binary {id left right : ExprId} {op : BinaryOp} {uses others : List LiteralUse}
      (hkind : (p.expr id).kind = .binary op left right)
      (hop : op.operandCode? = some .arithmeticOperand)
      (hleft : LiteralArithmetic p left uses) (hright : LiteralArithmetic p right others) :
      LiteralArithmetic p id (uses ++ others)

lemma Program.LiteralArithmetic.acyclic {p : Program} {id : ExprId} {uses : List LiteralUse}
    (h : p.LiteralArithmetic id uses) : p.AcyclicExpr id := by
  have hkinds {id : ExprId} {kind : ExprKind} (hkind : (p.expr id).kind = kind)
      (hparts : ∀ c ∈ kind.children, p.AcyclicExpr c) : p.AcyclicExpr id :=
    .of_children (by rwa [Program.exprChildren, hkind])
  induction h with
  | literal hkind => exact hkinds hkind (by simp [children])
  | negated hkind hoperand =>
    have hleaf := hkinds hoperand (by simp [children])
    exact hkinds hkind (by simp [children, hleaf])
  | signed hkind _ _ _ ih => exact hkinds hkind (by simp [children, ih])
  | group hkind _ ih => exact hkinds hkind (by simp [children, ih])
  | binary hkind _ _ _ ihleft ihright =>
    exact hkinds hkind (by simp [children, ihleft, ihright])

namespace Rule

variable {α β : Type} {env : Env} {ty : Ty} {ds es : List Diagnostic} {a : α} {b : β} {x : Rule α}
  {f : α → Rule β} {id operand left right : ExprId} {width : Primitive}

/-- From any state on, the rule gives this answer and adds these diagnostics, and it records no type
but `ty`. -/
def Adopts (env : Env) (ty : Ty) (ds : List Diagnostic) (answer : α) (x : Rule α) : Prop :=
  ∀ s, ((ofRule env x).run s).1 = answer ∧ ((ofRule env x).run s).2.diagnostics.entries.toList =
      s.diagnostics.entries.toList ++ ds ∧
    ∃ entries, ((ofRule env x).run s).2.types.log = entries ++ s.types.log ∧
      ∀ entry ∈ entries, entry.2 = ty

namespace Adopts

protected lemma pure (a : α) : Adopts env ty [] a (pure a) :=
  fun _ => ⟨rfl, (append_nil _).symm, [], rfl, by simp⟩

protected lemma bind (hx : Adopts env ty ds a x) (hf : Adopts env ty es b (f a)) :
    Adopts env ty (ds ++ es) b (x >>= f) := by
  intro s
  obtain ⟨ha, hds, first, hfirst, htypes⟩ := hx s
  obtain ⟨hb, hes, second, hsecond, htypes'⟩ := hf ((ofRule env x).run s).2
  rw [ofRule_bind, run_bind, ha]
  refine ⟨hb, by rw [hes, hds, append_assoc], second ++ first, ?_, ?_⟩
  · rw [hsecond, hfirst, append_assoc]
  · exact forall_mem_append.mpr ⟨htypes', htypes⟩

lemma andPure (hx : Adopts env ty ds a x) (g : α → β) :
    Adopts env ty ds (g a) (x >>= fun a => pure (g a)) := by
  simpa using hx.bind (f := fun a => pure (g a)) (.pure (g a))

lemma andRecord {x : Rule Ty} (hx : Adopts env ty ds ty x) (id : ExprId) :
    Adopts env ty ds ty (do let ty ← x; record id ty; return ty) := by
  have hrecord : Adopts env ty [] () (record id ty) :=
    fun _ => ⟨rfl, (append_nil _).symm, [(id, ty)], rfl, by simp⟩
  simpa using hx.bind (f := fun ty => do record id ty; return ty) (hrecord.andPure fun _ => ty)

lemma visit (hends : env.program.ExprEnds id)
    (h : Adopts env ty ds ty (valueType env id (some ty))) :
    Adopts env ty ds ty (visit (.value (some ty)) id) := by
  unfold Adopts
  rw [ofRule_visit _ hends]
  exact h.andRecord id

/-- What the right operand reports is put behind what the left one reports. -/
lemma operandTypes (hleft : Adopts env ty ds ty (Rule.visit (.value (some ty)) left))
    (hright : Adopts env ty es ty (Rule.visit (.value (some ty)) right)) :
    Adopts env ty (ds ++ es) (ty, ty) (operandTypes env left right (some ty)) := by
  unfold Rule.operandTypes
  split
  · intro s
    obtain ⟨hanswer, hadds, -⟩ := hright s
    obtain ⟨hlast, hall, hlog⟩ := hright.bind (f := fun ty => Rule.visit (.value (some ty)) left) hleft s
    rw [ofRule_bind, run_bind, hanswer] at hlast hall hlog
    simp only [ofRule_bind, run_bind, run_ofRule_perform, Action.step, hanswer]
    refine ⟨by rw [hlast]; rfl, ?_, hlog⟩
    show (hoist _ _ _).entries.toList = _
    rw [toList_hoist, size_eq, size_eq, hadds, hall,
      if_pos (by simp), ← append_assoc, hoisted_between, append_assoc]
  · exact hleft.bind (hright.andPure fun rightType => (ty, rightType))

variable (hwidth : width.isInteger)

include hwidth

lemma literal (digits : String) (span : Span) (negative : Bool) :
    Adopts env (.prim width) (LiteralUse.misfits width [⟨span, digits, negative⟩]) (.prim width)
      (literalType env.options (.int digits) (some (.prim width)) span negative) := by
  have hchosen : integerWidth env.options (some (.prim width)) = width := by
    simp [integerWidth, offered?, hwidth]
  intro s
  rw [ofRule, literalType_int_run, hchosen]
  cases hfits : fitsWidth width digits negative <;>
    simp [LiteralUse.misfits, LiteralUse.fits, LiteralUse.diagnostic, hfits, toList_push]

omit hwidth in
lemma isNumeric_prim (hwidth : width.isInteger) : (prim width).isNumeric := by
  simp [isNumeric, Primitive.isNumeric, hwidth]

lemma binary {op : BinaryOp} (hop : op.operandCode? = some .arithmeticOperand)
    (hleft : Adopts env (.prim width) ds (.prim width) (Rule.visit (.value (some (.prim width))) left))
    (hright : Adopts env (.prim width) es (.prim width)
      (Rule.visit (.value (some (.prim width))) right)) (span : Span) :
    Adopts env (.prim width) (ds ++ es) (.prim width)
      (binaryType env op left right (some (.prim width)) span) := by
  have hstring : (prim width).isString = false := by
    cases width <;> first | rfl | cases hwidth
  have hself : (prim width == prim width) = true := same_refl _
  have hresult : arithmeticType op (.prim width) (.prim width) span = pure (.prim width) := by
    rw [arithmeticType, hstring, isNumeric_prim hwidth, hself]
    simp [isError, isAbsorbing]
  rw [binaryType_eq_arithmetic hop, ← append_nil (ds ++ es)]
  exact (hleft.operandTypes hright).bind (hresult ▸ .pure _)

/-- A sign changes neither the type of a number nor what is reported on it, unless it is a minus right
before a literal. -/
lemma signed {op : UnaryOp} (hop : op ≠ .not)
    (hother : op = .minus → ∀ digits, env.exprKind operand ≠ .literal (.int digits))
    (hoperand : Adopts env (.prim width) ds (.prim width)
      (Rule.visit (.value (some (.prim width))) operand)) (span : Span) :
    Adopts env (.prim width) ds (.prim width)
      (unaryType env op operand (some (.prim width)) span) := by
  have hsigned (sign : String) : Adopts env (.prim width) ds (.prim width)
      (signedType env op sign operand (some (.prim width)) span) := by
    unfold signedType
    split
    · next hliteral => exact (hother rfl _ hliteral).elim
    · rw [← append_nil ds]
      refine hoperand.bind ?_
      rw [isNumeric_prim hwidth, Bool.or_true, if_pos rfl]
      exact .pure _
  cases op with
  | not => exact (hop rfl).elim
  | plus | minus => exact hsigned _

end Adopts

end Rule

open Rule in
/-- The hint that an operand is given is the width that was expected, whichever side is first. -/
lemma Program.LiteralArithmetic.adopts {env : Env} {width : Primitive} {id : ExprId}
    {uses : List LiteralUse} (h : env.program.LiteralArithmetic id uses) (hwidth : width.isInteger) :
    Adopts env (.prim width) (LiteralUse.misfits width uses) (.prim width)
      (visit (.value (some (.prim width))) id) := by
  have hends := h.acyclic.ends
  induction h with
  | literal hkind =>
    refine .visit hends ?_
    simp only [valueType, Env.exprKind, hkind]
    exact .literal hwidth _ _ false
  | negated hkind hoperand =>
    -- The literal is not visited. Its type is recorded by the rule for the sign.
    refine .visit hends ?_
    simp only [valueType, Env.exprKind, hkind, unaryType, signedType, hoperand]
    exact (Adopts.literal hwidth _ _ true).andRecord _
  | signed hkind hop hother hoperand ih =>
    refine .visit hends ?_
    simp only [valueType, Env.exprKind, hkind]
    exact (ih hoperand.acyclic.ends).signed hwidth hop hother _
  | group hkind hinner ih =>
    refine .visit hends ?_
    simp only [valueType, Env.exprKind, hkind]
    exact ih hinner.acyclic.ends
  | binary hkind hop hleft hright ihleft ihright =>
    refine .visit hends ?_
    simp only [valueType, Env.exprKind, hkind]
    rw [LiteralUse.misfits, filter_append, map_append]
    exact (ihleft hleft.acyclic.ends).binary hwidth hop (ihright hright.acyclic.ends) _

/-- What is recorded last for an expression is found, if all that is recorded anew has one type. -/
lemma TypeTable.get?_of_entries {table : TypeTable} {entries rest : List (ExprId × Ty)} {ty : Ty}
    {id : ExprId} (hlog : table.log = entries ++ rest) (htypes : ∀ entry ∈ entries, entry.2 = ty)
    (hid : id ∈ entries.map (·.1)) : table.get? id = some ty := by
  have hfound := (isSome_get?_iff ⟨entries⟩ id).mpr hid
  obtain ⟨found, hfound⟩ := Option.isSome_iff_exists.mp hfound
  have hty : found = ty := htypes _ (mem_of_lookup_eq_some hfound)
  have hlookup : entries.lookup id = some found := hfound
  rw [get?, hlog, lookup_append, hlookup, Option.some_or, hty]

/-- Arithmetic on integer literals that an integer type is expected of has that type, and so has all
that it is made of. One diagnostic is added for each literal that does not fit the type, from left to
right, and nothing else. If the literal is a numeral, it fits just when its value, negative after a
minus, is within the bounds of the type. -/
theorem literalArithmetic_adopts_width (env : Env) (width : Primitive) (hwidth : width.isInteger)
    (id : ExprId) (uses : List LiteralUse) (harith : env.program.LiteralArithmetic id uses) :
    (∀ s, let outcome := (Check.expr env (.value (some (.prim width))) id).run s
      outcome.1 = .prim width ∧
      (∀ part, Relation.ReflTransGen env.program.ExprEdge id part →
        outcome.2.types.get? part = some (.prim width)) ∧
      outcome.2.diagnostics.entries.toList = s.diagnostics.entries.toList ++
        (uses.filter fun use => !use.fits width).map (LiteralUse.diagnostic width)) ∧
    (∀ use, (LiteralUse.diagnostic width use).code.text = "E2401" ∧
      (LiteralUse.diagnostic width use).span = some use.span) ∧
    ∃ low high, width.bounds? = some (low, high) ∧
      ∀ (use : LiteralUse) (value : Nat), Numeral.Denotes use.digits value → (use.fits width ↔
          low ≤ signedValue value use.negative ∧ signedValue value use.negative ≤ high) := by
  have hends := harith.acyclic.ends
  obtain ⟨low, high, hbounds⟩ := Primitive.bounds?_isSome hwidth
  refine ⟨fun s => ?_, fun use => ⟨rfl, rfl⟩, low, high, hbounds, fun use value hvalue => ?_⟩
  · have hadopts := harith.adopts hwidth s
    rw [Check.ofRule, Rule.toCheck_visit] at hadopts
    obtain ⟨hanswer, hadds, entries, hlog, htypes⟩ := hadopts
    have hrecorded := (Check.meets_performing_iff.mp
      (Check.expr_meets hends (.value (some (.prim width))) s)).2.1
    refine ⟨hanswer, fun part hpart => TypeTable.get?_of_entries hlog htypes ?_, hadds⟩
    simp only [State.outline, hlog, map_append, ← Multiset.coe_add, add_left_inj] at hrecorded
    rw [← Multiset.mem_coe, hrecorded, hends.mem_exprTree]
    exact hpart
  · exact (Rule.fitsWidth_iff hvalue width use.negative).trans
      (Primitive.fits_iff_bounds hbounds value use.negative)

def Program.literalSum : Program where
  expressions := #[⟨{ column := 2 }, .literal (.int "128")⟩, ⟨{ column := 1 }, .unary .minus ⟨0⟩⟩,
    ⟨{ column := 9 }, .literal (.int "1")⟩, ⟨{ column := 13 }, .literal (.int "300")⟩,
    ⟨{}, .binary .subtract ⟨2⟩ ⟨3⟩⟩, ⟨{}, .group ⟨4⟩⟩, ⟨{}, .binary .add ⟨1⟩ ⟨5⟩⟩]

theorem literalSum_adopts_width :
    let env : Env := ⟨.literalSum, {}⟩
    let uses : List LiteralUse :=
      [⟨{ column := 1 }, "128", true⟩, ⟨{ column := 9 }, "1", false⟩, ⟨{ column := 13 }, "300", false⟩]
    Primitive.i8.isInteger ∧ env.program.LiteralArithmetic ⟨6⟩ uses ∧
      ∀ s, ((Check.expr env (.value (some (.prim .i8))) ⟨6⟩).run s).2.diagnostics.entries.toList =
        s.diagnostics.entries.toList ++ [LiteralUse.diagnostic .i8 ⟨{ column := 13 }, "300", false⟩] := by
  have harith : Program.LiteralArithmetic .literalSum ⟨6⟩ ([⟨{ column := 1 }, "128", true⟩] ++
        ([⟨{ column := 9 }, "1", false⟩] ++ [⟨{ column := 13 }, "300", false⟩])) :=
    .binary rfl rfl (.negated rfl rfl) (.group rfl (.binary rfl rfl (.literal rfl) (.literal rfl)))
  refine ⟨rfl, harith, fun s => ?_⟩
  exact ((literalArithmetic_adopts_width ⟨.literalSum, {}⟩ .i8 rfl ⟨6⟩ _ harith).1 s).2.2

end StaticTyping
