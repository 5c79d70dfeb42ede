import StaticTyping.Proofs.Calls.CallFree
import Mathlib.Data.Finset.Dedup

/-! How the arguments of a call go with its parameters. They are bound from left to right, one after
another. Of arguments that are positional or named it matters only how many are positional and which
names there are: `Signature.faults` tells from that what is wrong with them, and to bind them reports
just that. -/

namespace StaticTyping

open Finding Signature Check List Rule Diagnostics Argument Nat

variable {value : ExprId} {code : Code} {name : String} {args : List Argument} {α : Type}

namespace Diagnostics

def messages (ds : Diagnostics) (code : Code) : Multiset String :=
  ((ds.entries.toList.filter (·.code == code)).map (·.message) : List String)

variable (ds : Diagnostics) (code : Code)

lemma card_messages : (ds.messages code).card = ds.count code := by
  simp [messages, count, ← Array.countP_toList, countP_eq_length_filter]

lemma messages_push (d : Diagnostic) :
    (ds.push d).messages code = ds.messages code + if d.code = code then {d.message} else 0 := by
  by_cases h : d.code = code
  · simp [messages, push, h, ← Multiset.coe_add]
  · simp [messages, push, h]

end Diagnostics

lemma Action.Plain.messages_step {β : Type} {action : Action β} (h : action.Plain)
    (hcode : code.isPlain = false) (s : State) :
    (action.step s).2.diagnostics.messages code = s.diagnostics.messages code := by
  cases action with
  | report d =>
    have hne : d.code ≠ code := by
      rintro rfl
      simp [Action.Plain, hcode] at h
    simp [step, messages_push, hne]
  | hoist => exact Multiset.coe_eq_coe.mpr (((hoist_perm ..).filter _).map _)
  | lookupValueType | declareValue | declareType =>
    simp only [step]
    split <;> rfl
  | _ => rfl

lemma Check.messages_run {x : Check α} (hx : x.Uses Action.Plain)
    (hcode : code.isPlain = false) (s : State) :
    (x.run s).2.diagnostics.messages code = s.diagnostics.messages code := by
  induction x generalizing s with
  | done a => rfl
  | ask action next ih => exact (ih _ (hx.2 _) _).trans (hx.1.messages_step hcode s)

def Finding.messagesUnder (code : Code) (findings : Multiset Finding) : Multiset String :=
  (findings.filter (·.code = code)).map message

lemma Finding.messagesUnder_add (code : Code) (first second : Multiset Finding) :
    messagesUnder code (first + second) = messagesUnder code first + messagesUnder code second := by
  simp [messagesUnder]

lemma Finding.messagesUnder_singleton (code : Code) (finding : Finding) :
    messagesUnder code {finding} = if finding.code = code then {finding.message} else 0 := by
  by_cases h : finding.code = code <;> simp [messagesUnder, Multiset.filter_singleton, h]

lemma Finding.messagesUnder_map (finding : α → Finding) {own : Code}
    (h : ∀ a, (finding a).code = own) (code : Code) (items : Multiset α) :
    messagesUnder code (items.map finding) =
      if own = code then items.map fun a => (finding a).message else 0 := by
  by_cases hcode : own = code <;> simp [messagesUnder, Multiset.filter_map, h, hcode]

variable {env : Env} {told : Multiset Finding} {count : Nat} {names : Multiset String} {b : Binding}

namespace Rule

variable {α β : Type} {code : Code} {later now : Multiset Finding} {P : α → Prop} {x : Rule α}

/-- The rule comes to an answer as `P` says. As far as findings go under the code, where those in `told`
are reported already, those in `now` are when it is done. -/
def Tells (env : Env) (code : Code) (told now : Multiset Finding) (P : α → Prop) (x : Rule α) : Prop :=
  ∀ s others, s.diagnostics.messages code = others + messagesUnder code told →
    P ((ofRule env x).run s).1 ∧ ((ofRule env x).run s).2.diagnostics.messages code =
        others + messagesUnder code now

namespace Tells

protected lemma pure {a : α} (h : P a) : Tells env code told told P (pure a) :=
  fun _ _ hs => ⟨h, hs⟩

protected lemma bind {Q : β → Prop} {f : α → Rule β} (hx : Tells env code told later P x)
    (hf : ∀ a, P a → Tells env code later now Q (f a)) : Tells env code told now Q (x >>= f) := by
  intro s others hs
  obtain ⟨ha, hlater⟩ := hx s others hs
  rw [ofRule_bind, run_bind]
  exact hf _ ha _ others hlater

lemma andPure {Q : β → Prop} {f : α → β} (hx : Tells env code told now P x)
    (hf : ∀ a, P a → Q (f a)) : Tells env code told now Q (x >>= fun a => pure (f a)) :=
  hx.bind fun a ha => .pure (hf a ha)

lemma of_plain {k : ℕ} (hx : (Account.plain env env.program.CallFree).Does [] () k x)
    (hcode : code.isPlain = false) : Tells env code told told (fun _ => True) x := by
  intro s others hs
  have hplain : (ofRule env x).Uses Action.Plain :=
    hx.plain (fun role _ hid => exprWithin_plain hid _ role) expand_plain
  have hrun := messages_run hplain hcode s
  exact ⟨trivial, hrun.trans hs⟩

end Tells

lemma report_tells (finding : Finding) (span : Span) :
    Tells env code told (told + {finding}) (fun _ => True) (report finding span) := by
  intro s others hs
  have hpush := s.diagnostics.messages_push code (finding.toDiagnostic span)
  rw [hs] at hpush
  rw [messagesUnder_add, messagesUnder_singleton, ← add_assoc]
  exact ⟨trivial, hpush⟩

lemma reportIf_tells (condition : Bool) (finding : Finding) (span : Span) :
    Tells env code told (told + if condition then {finding} else 0) (fun _ => True)
      (reportIf condition finding span) := by
  cases condition with
  | true => exact report_tells finding span
  | false =>
    rw [if_neg Bool.false_ne_true, add_zero]
    exact .pure trivial

lemma forM_reportIf_tells (condition : α → Bool) (finding : α → Finding) (span : Span)
    (items : List α) :
    Tells env code told (told + (items.filter condition : Multiset α).map finding)
      (fun _ => True) (items.forM fun item => reportIf (condition item) (finding item) span) := by
  induction items generalizing told with
  | nil =>
    rw [filter_nil, Multiset.coe_nil, Multiset.map_zero, add_zero]
    exact .pure trivial
  | cons item rest ih =>
    have hsplit : told + ((item :: rest).filter condition : Multiset α).map finding =
        told + (if condition item then {finding item} else 0) +
          (rest.filter condition : Multiset α).map finding := by
      by_cases h : condition item
      · rw [filter_cons_of_pos h, if_pos h, ← Multiset.cons_coe, Multiset.map_cons,
          ← Multiset.singleton_add, add_assoc]
      · simp [h]
    rw [hsplit]
    exact (reportIf_tells _ _ _).bind fun _ _ => ih

end Rule

def repeats (names : Multiset String) : Multiset String := names - names.dedup

lemma repeats_cons (name : String) (names : Multiset String) :
    repeats (name ::ₘ names) = if name ∈ names then name ::ₘ repeats names else repeats names := by
  by_cases h : name ∈ names
  · have hle : names.dedup ≤ names := Multiset.dedup_le names
    simp [repeats, h, Multiset.cons_sub_of_le name hle]
  · simp [repeats, h, Multiset.dedup_cons_of_notMem h]

namespace Signature

variable (sig : Signature)

/-- The names that are supplied by some number of positional arguments and by arguments of these
names. -/
def occupied (count : Nat) (names : Multiset String) : Multiset String :=
  ((sig.positional.map (·.name)).take count : List String) + names

def untaken (names : Multiset String) : Multiset String :=
  if sig.kwVariadic?.isSome then 0 else names.dedup.filter fun name => (sig.ordinary? name).isNone

def surplus (count : Nat) : Nat :=
  if sig.variadic?.isSome then 0 else count - sig.positional.length

/-- What is wrong with some number of positional arguments and arguments of these names. -/
def mispaired (count : Nat) (names : Multiset String) : Multiset Finding :=
  .replicate (sig.surplus count) (.tooManyPositional sig.callee sig.positional.length) +
    (repeats (sig.occupied count names)).map .argumentRepeated +
    (sig.untaken names).map (.unknownNamedArgument sig.callee)

def unfilled (count : Nat) (names : Multiset String) : Multiset ParamInfo :=
  (sig.params.filter fun param =>
    param.isRequired && !decide (param.name ∈ sig.occupied count names) : List ParamInfo)

/-- All that is wrong with how the arguments of a call go with its parameters. -/
def faults (count : Nat) (names : Multiset String) : Multiset Finding := sig.mispaired count names +
    (sig.unfilled count names).map fun param => .missingArgument param.name sig.callee

variable {sig} {param : ParamInfo} {free : List ParamInfo}

lemma occupied_cons (name : String) :
    sig.occupied count (name ::ₘ names) = name ::ₘ sig.occupied count names := by
  simp [occupied]

lemma occupied_succ (h : sig.positional.drop count = param :: free) :
    sig.occupied (count + 1) names = param.name ::ₘ sig.occupied count names := by
  have hparam : sig.positional[count]? = some param := by
    rw [← head?_drop, h]
    rfl
  simp only [occupied, take_add_one, getElem?_map, hparam, Option.map_some,
    Option.toList_some, ← Multiset.coe_add, Multiset.coe_singleton]
  rw [add_right_comm, add_comm, Multiset.singleton_add]

lemma occupied_succ_of_filled (h : sig.positional.drop count = []) :
    sig.occupied (count + 1) names = sig.occupied count names := by
  have hlength : sig.positional.length ≤ count := drop_eq_nil_iff.mp h
  simp [occupied, take_of_length_le, hlength, le_succ_of_le hlength]

lemma isSome_ordinary_of_mem (h : name ∈ sig.positional.map (·.name)) :
    (sig.ordinary? name).isSome := by
  simp only [positional, mem_map, mem_filter, beq_iff_eq] at h
  obtain ⟨param, ⟨hparam, hrole⟩, rfl⟩ := h
  simp only [ordinary?, find?_isSome]
  exact ⟨param, hparam, by simp [ParamInfo.isOrdinary, hrole]⟩

lemma untaken_cons_of_mem (h : name ∈ sig.occupied count names) :
    sig.untaken (name ::ₘ names) = sig.untaken names := by
  by_cases hname : name ∈ names
  · simp [untaken, Multiset.dedup_cons_of_mem hname]
  · -- The name is supplied by position, so there is a parameter that takes it.
    have hpositional : name ∈ sig.positional.map (·.name) := by
      simp only [occupied, Multiset.mem_add, Multiset.mem_coe, hname, or_false] at h
      exact mem_of_mem_take h
    have hordinary := isSome_ordinary_of_mem hpositional
    simp [untaken, Multiset.dedup_cons_of_notMem hname, Option.isSome_iff_ne_none.mp hordinary]

lemma untaken_cons_of_notMem (h : name ∉ names) : sig.untaken (name ::ₘ names) = sig.untaken names +
      if (sig.ordinary? name).isNone && sig.kwVariadic?.isNone then {name} else 0 := by
  by_cases hrest : sig.kwVariadic? = none
  · by_cases hname : sig.ordinary? name = none
    · simp [untaken, hrest, hname, Multiset.dedup_cons_of_notMem h, add_comm]
    · simp [untaken, hrest, hname, Multiset.dedup_cons_of_notMem h]
  · simp [untaken, hrest, Option.isSome_iff_ne_none]

section Next

/-- The next positional argument fills the next parameter, even if its name is supplied already. -/
lemma mispaired_succ (h : sig.positional.drop count = param :: free) : sig.mispaired count names +
        (if param.name ∈ sig.occupied count names then {.argumentRepeated param.name} else 0) =
      sig.mispaired (count + 1) names := by
  have hlt : count < sig.positional.length := by
    by_contra hle
    simp [drop_eq_nil_of_le (Nat.le_of_not_lt hle)] at h
  have hsurplus : sig.surplus (count + 1) = sig.surplus count := by
    simp [surplus, Nat.sub_eq_zero_of_le hlt, Nat.sub_eq_zero_of_le hlt.le]
  by_cases hname : param.name ∈ sig.occupied count names
  · rw [if_pos hname, add_comm, Multiset.singleton_add]
    simp [mispaired, occupied_succ h, repeats_cons, hsurplus, hname]
  · simp [mispaired, occupied_succ h, repeats_cons, hsurplus, hname]

lemma mispaired_succ_of_variadic (h : sig.positional.drop count = [])
    (hvariadic : sig.variadic?.isSome) :
    sig.mispaired (count + 1) names = sig.mispaired count names := by
  simp [mispaired, occupied_succ_of_filled h, surplus, hvariadic]

lemma mispaired_succ_of_surplus (h : sig.positional.drop count = [])
    (hvariadic : sig.variadic? = none) :
    sig.mispaired count names + {.tooManyPositional sig.callee sig.positional.length} =
      sig.mispaired (count + 1) names := by
  have hle : sig.positional.length ≤ count := drop_eq_nil_iff.mp h
  have hsurplus : sig.surplus (count + 1) = sig.surplus count + 1 := by
    simp [surplus, hvariadic, Nat.sub_add_comm hle]
  rw [add_comm, Multiset.singleton_add]
  simp [mispaired, occupied_succ_of_filled h, hsurplus, Multiset.replicate_succ]

end Next

section Named

variable {name : String}

lemma mispaired_cons_of_mem (h : name ∈ sig.occupied count names) :
    sig.mispaired count names + {.argumentRepeated name} =
      sig.mispaired count (name ::ₘ names) := by
  rw [add_comm, Multiset.singleton_add]
  simp [mispaired, occupied_cons, repeats_cons, h, untaken_cons_of_mem h]

lemma mispaired_cons_of_notMem (h : name ∉ sig.occupied count names) : sig.mispaired count names +
        (if (sig.ordinary? name).isNone && sig.kwVariadic?.isNone then
          {.unknownNamedArgument sig.callee name} else 0) =
      sig.mispaired count (name ::ₘ names) := by
  have hname : name ∉ names := fun hmem => h (Multiset.mem_add.mpr (.inr hmem))
  simp only [mispaired, occupied_cons, repeats_cons, h, if_false, untaken_cons_of_notMem hname]
  split <;> simp [add_assoc]

end Named

/-- The binding is what it is once some number of positional arguments and arguments of these names
are bound. -/
structure Reaches (sig : Signature) (count : Nat) (names : Multiset String) (b : Binding) : Prop where
  free : b.free = sig.positional.drop count
  supplied : ∀ name, name ∈ b.supplied ↔ name ∈ sig.occupied count names
  anyFilled : b.anyFilled = false

namespace Reaches

lemma start (sig : Signature) : sig.Reaches 0 0 (.start sig) :=
  ⟨rfl, by simp [Binding.start, occupied], rfl⟩

lemma contains_supplied (hb : sig.Reaches count names b) (name : String) :
    b.supplied.contains name = decide (name ∈ sig.occupied count names) := by
  simp [hb.supplied]

lemma next (hb : sig.Reaches count names b) (h : sig.positional.drop count = param :: free) :
    sig.Reaches (count + 1) names { b.supply param.name with free } where
  free := by rw [← tail_drop, h, tail_cons]
  supplied name := by simp [Binding.supply, occupied_succ h, hb.supplied]
  anyFilled := hb.anyFilled

lemma beyond (hb : sig.Reaches count names b) (h : sig.positional.drop count = []) :
    sig.Reaches (count + 1) names b where
  free := by rw [hb.free, ← tail_drop, h, tail_nil]
  supplied name := by rw [occupied_succ_of_filled h, hb.supplied]
  anyFilled := hb.anyFilled

lemma again (hb : sig.Reaches count names b) {name : String}
    (h : name ∈ sig.occupied count names) : sig.Reaches count (name ::ₘ names) b where
  __ := hb
  supplied other := by
    rw [hb.supplied, occupied_cons, Multiset.mem_cons]
    exact ⟨.inr, fun hother => hother.elim (fun heq => heq ▸ h) id⟩

lemma named (hb : sig.Reaches count names b) (name : String) :
    sig.Reaches count (name ::ₘ names) (b.supply name) where
  __ := hb
  supplied other := by simp [Binding.supply, occupied_cons, hb.supplied]

end Reaches

end Signature

def Argument.IsSingle (arg : Argument) : Prop :=
  arg.kind = .positional ∨ ∃ name, arg.kind = .named name

def Argument.name? (arg : Argument) : Option String :=
  match arg.kind with
  | .named name => some name.name
  | _ => none

def Argument.isPositional (arg : Argument) : Bool := arg.kind == .positional

namespace Rule

variable {code : Code} {sig : Signature}

section

variable (hcode : code.isPlain = false)

include hcode

lemma visit_tells (hvalue : env.program.CallFree value) (role : Role) :
    Tells env code told told (fun _ => True) (visit role value) :=
  .of_plain (visit_does hvalue role) hcode

lemma checkSupplied_tells (hvalue : env.program.CallFree value)
    (param : ParamInfo) (expected : Ty) :
    Tells env code told told (fun _ => True) (checkSupplied env param expected (.expr value)) :=
  have hbelow : (Supplied.expr value).Below env.program.CallFree := hvalue
  .of_plain (checkSupplied_does hbelow param expected) hcode

lemma bindNext_tells (hb : sig.Reaches count names b) (hvalue : env.program.CallFree value) :
    Tells env code (sig.mispaired count names) (sig.mispaired (count + 1) names)
      (fun bound => sig.Reaches (count + 1) names bound.2) (bindNext env sig b (.expr value)) := by
  unfold bindNext
  split
  · rename_i param free hfree
    have hdrop : sig.positional.drop count = param :: free := hb.free ▸ hfree
    -- A name that is supplied already is reported, and the position counts as filled all the same.
    have hreport : Tells env code (sig.mispaired count names) _ (fun _ => True)
        (reportIf (decide (param.name ∈ sig.occupied count names)) (.argumentRepeated param.name)
          (env.exprSpan value)) := reportIf_tells _ _ _
    simp only [decide_eq_true_eq, mispaired_succ hdrop] at hreport
    rw [hb.contains_supplied]
    refine hreport.bind fun _ _ => ?_
    exact (checkSupplied_tells hcode hvalue param _).andPure fun _ _ => hb.next hdrop
  · rename_i param hfree hvariadic
    have hdrop : sig.positional.drop count = [] := hb.free ▸ hfree
    rw [mispaired_succ_of_variadic hdrop (by simp [hvariadic])]
    exact (checkSupplied_tells hcode hvalue param _).andPure fun _ _ => hb.beyond hdrop
  · rename_i hfree hvariadic
    have hdrop : sig.positional.drop count = [] := hb.free ▸ hfree
    rw [← mispaired_succ_of_surplus hdrop hvariadic]
    refine (report_tells _ _).bind fun _ _ => ?_
    exact (visit_tells hcode hvalue _).andPure fun _ _ => hb.beyond hdrop

lemma checkNamed_tells (hvalue : env.program.CallFree value)
    (name : String) (span : Span) : Tells env code told
      (told + if (sig.ordinary? name).isNone && sig.kwVariadic?.isNone then
        {.unknownNamedArgument sig.callee name} else 0)
      (fun _ => True) (checkNamed env sig name value span) := by
  cases hordinary : sig.ordinary? name with
  | some param =>
    simpa [checkNamed, hordinary] using checkSupplied_tells hcode hvalue param _
  | none =>
    cases hrest : sig.kwVariadic? with
    | some param =>
      simpa [checkNamed, hordinary, hrest] using checkSupplied_tells hcode hvalue param _
    | none =>
      simp only [checkNamed, hordinary, hrest, Option.isNone_none, Bool.and_true, if_true]
      exact (report_tells _ _).bind fun _ _ => visit_tells hcode hvalue _

lemma bindNamed_tells (hb : sig.Reaches count names b)
    (hvalue : env.program.CallFree value) (name : String) (span : Span) :
    Tells env code (sig.mispaired count names) (sig.mispaired count (name ::ₘ names))
      (fun bound => sig.Reaches count (name ::ₘ names) bound.2)
      (bindNamed env sig b name value span (.argumentRepeated name)) := by
  unfold bindNamed
  simp only [hb.contains_supplied, decide_eq_true_eq]
  by_cases h : name ∈ sig.occupied count names
  · rw [if_pos h, ← mispaired_cons_of_mem h]
    refine (report_tells _ _).bind fun _ _ => ?_
    exact (visit_tells hcode hvalue _).andPure fun _ _ => hb.again h
  · rw [if_neg h, ← mispaired_cons_of_notMem h]
    exact (checkNamed_tells hcode hvalue name span).andPure fun _ _ => hb.named name

/-- Whatever the order of the arguments, in the end it matters only how many are positional and which
names there are. -/
lemma bindEachArgument_tells (hargs : ∀ arg ∈ args, arg.IsSingle ∧ env.program.CallFree arg.value)
    (hb : sig.Reaches count names b) : Tells env code (sig.mispaired count names)
      (sig.mispaired (count + args.countP (·.isPositional)) (args.filterMap (·.name?) + names))
      (sig.Reaches (count + args.countP (·.isPositional)) (args.filterMap (·.name?) + names))
      (args.foldlM (bindArgument env sig) b) := by
  -- The invariant is that the binding and what is told are those of the arguments bound so far.
  induction args generalizing count names b with
  | nil =>
    simp only [countP_nil, filterMap_nil, add_zero, Multiset.coe_nil, zero_add]
    exact .pure hb
  | cons arg rest ih =>
    obtain ⟨⟨hsingle, hvalue⟩, hrest⟩ := forall_mem_cons.mp hargs
    rw [foldlM_cons]
    rcases hsingle with hkind | ⟨name, hkind⟩
    · have hcount : count + (arg :: rest).countP (·.isPositional) =
          count + 1 + rest.countP (·.isPositional) := by
        simp [isPositional, hkind, add_assoc, add_comm]
      have hnames : (arg :: rest).filterMap (·.name?) = rest.filterMap (·.name?) := by
        simp [name?, hkind]
      simp only [hcount, hnames, bindArgument, hkind]
      have hnext := (bindNext_tells hcode hb hvalue).andPure fun _ hnext => hnext
      exact hnext.bind fun _ hnext => ih hrest hnext
    · have hcount : (arg :: rest).countP (·.isPositional) = rest.countP (·.isPositional) := by
        simp [isPositional, hkind]
      have hname : arg.name? = some name.name := by simp [name?, hkind]
      have hnames : ((arg :: rest).filterMap (·.name?) : Multiset String) + names =
          rest.filterMap (·.name?) + name.name ::ₘ names := by
        rw [filterMap_cons_some hname, ← Multiset.cons_coe, Multiset.cons_add, Multiset.add_cons]
      simp only [hcount, hnames, bindArgument, hkind]
      have hnamed := (bindNamed_tells hcode hb hvalue name.name name.span).andPure fun _ hnext => hnext
      exact hnamed.bind fun _ hnext => ih hrest hnext

end

lemma bindArguments_tells (hcode : code.isPlain = false)
    (hargs : ∀ arg ∈ args, arg.IsSingle ∧ env.program.CallFree arg.value) (span : Span) :
    Tells env code 0 (sig.faults (args.countP (·.isPositional)) (args.filterMap (·.name?)))
      (fun _ => True) (bindArguments env sig args span) := by
  have hbound := bindEachArgument_tells hcode hargs (.start sig)
  have hnone : sig.mispaired 0 0 = 0 := by
    simp [mispaired, surplus, occupied, repeats, untaken]
  rw [zero_add, add_zero, hnone] at hbound
  refine hbound.bind fun b hb => ?_
  unfold reportMissing
  simp only [hb.anyFilled, hb.contains_supplied, Bool.false_eq_true, if_false]
  exact forM_reportIf_tells _ _ span sig.params

end Rule

namespace Signature

variable (sig : Signature) (count : Nat) (names : List String)

lemma card_repeats_occupied : (repeats (sig.occupied count names)).card =
      min count (sig.positional.map (·.name)).length + names.length -
        (((sig.positional.map (·.name)).take count).toFinset ∪ names.toFinset).card := by
  rw [repeats, Multiset.card_sub (Multiset.dedup_le _), ← Multiset.card_toFinset]
  simp [occupied]

lemma untaken_eq : sig.untaken names = (if ∃ param ∈ sig.params, param.role = .kwVariadic then ∅
      else names.toFinset.filter fun name =>
        ∀ param ∈ sig.params, param.isOrdinary → param.name ≠ name).val := by
  by_cases h : ∃ param ∈ sig.params, param.role = .kwVariadic
  · have hsome : sig.kwVariadic?.isSome := by simpa [kwVariadic?, find?_isSome] using h
    rw [untaken, if_pos hsome, if_pos h, Finset.empty_val]
  · simp [untaken, kwVariadic?, ordinary?, find?_isSome, find?_eq_none, h]

lemma messagesUnder_faults (names : Multiset String) (code : Code) :
    messagesUnder code (sig.faults count names) =
      (if .tooManyPositional = code then .replicate (sig.surplus count)
          (tooManyPositional sig.callee sig.positional.length).message else 0) +
        (if .duplicateArgument = code then (repeats (sig.occupied count names)).map fun name =>
          (argumentRepeated name).message else 0) +
        (if .unknownNamedArgument = code then (sig.untaken names).map fun name =>
          (unknownNamedArgument sig.callee name).message else 0) +
        (if .missingArgument = code then (sig.unfilled count names).map fun param =>
          (missingArgument param.name sig.callee).message else 0) := by
  have hsurplus : Multiset.replicate (sig.surplus count)
      (tooManyPositional sig.callee sig.positional.length) =
      (Multiset.replicate (sig.surplus count) ()).map fun _ =>
        .tooManyPositional sig.callee sig.positional.length := by
    rw [Multiset.map_replicate]
  rw [faults, mispaired, hsurplus]
  simp only [messagesUnder_add]
  rw [messagesUnder_map (fun _ => .tooManyPositional _ _) fun _ => rfl,
    messagesUnder_map .argumentRepeated fun _ => rfl,
    messagesUnder_map (.unknownNamedArgument _) fun _ => rfl,
    messagesUnder_map (fun param : ParamInfo => .missingArgument param.name _) fun _ => rfl,
    Multiset.map_replicate]
  rfl

end Signature

namespace Check

variable {args : List Argument}

lemma bindArguments_messages (hcode : code.isPlain = false)
    (hargs : ∀ arg ∈ args, arg.IsSingle ∧ env.program.CallFree arg.value) (sig : Signature)
    (span : Span) (s : State) :
    ((ofRule env (bindArguments env sig args span)).run s).2.diagnostics.messages code =
      s.diagnostics.messages code + messagesUnder code
        (sig.faults (args.countP (·.isPositional)) (args.filterMap (·.name?))) := by
  have hnone : s.diagnostics.messages code =
      s.diagnostics.messages code + messagesUnder code 0 := by
    simp [messagesUnder]
  exact (bindArguments_tells hcode hargs span s _ hnone).2

lemma bindArguments_messages_perm (hcode : code.isPlain = false)
    (hargs : ∀ arg ∈ args, arg.IsSingle ∧ env.program.CallFree arg.value)
    {reordered : List Argument} (hperm : reordered.Perm args) (sig : Signature) (span : Span)
    (s : State) :
    ((ofRule env (bindArguments env sig reordered span)).run s).2.diagnostics.messages code =
      ((ofRule env (bindArguments env sig args span)).run s).2.diagnostics.messages code := by
  have hnames : (reordered.filterMap (·.name?) : Multiset String) = args.filterMap (·.name?) :=
    Multiset.coe_eq_coe.mpr (hperm.filterMap _)
  have hreordered : ∀ arg ∈ reordered, arg.IsSingle ∧ env.program.CallFree arg.value :=
    fun arg harg => hargs arg (hperm.mem_iff.mp harg)
  rw [bindArguments_messages hcode hreordered, bindArguments_messages hcode hargs, hnames,
    hperm.countP_eq]

lemma bindArguments_proceeds (h : ∀ arg ∈ args, env.program.ExprEnds arg.value) (sig : Signature)
    (span : Span) (s : State) :
    (ofRule env (bindArguments env sig args span)).Along (fun action _ => action.Proceeds) s :=
  ofRule_proceeds (bindArguments_does (descends_exprEnds env) trivial h
    (fun arg _ => Account.spares_of_nowhere rfl arg) False.elim) s

/-- What a call reports of how its arguments go with the parameters, if they are positional or named
and contain no calls themselves. Beyond the last position each positional argument is one too many,
unless a parameter takes the rest. Each name is repeated as often as it is supplied more than once, be
it by position or by name. Each name that no parameter takes is told once, however often it is given,
and each parameter is missing once that needs an argument and is supplied none. In what order the
arguments stand makes no difference. The check never gives up where the way down from the arguments
ends. -/
theorem bindArguments_reports (sig : Signature)
    (hargs : ∀ arg ∈ args, arg.IsSingle ∧ env.program.CallFree arg.value) (span : Span) (s : State) :
    let positions := args.countP (·.isPositional)
    let slots := sig.positional.map (·.name)
    let names := args.filterMap (·.name?)
    let unknown := if ∃ param ∈ sig.params, param.role = .kwVariadic then ∅
      else names.toFinset.filter fun name =>
        ∀ param ∈ sig.params, param.isOrdinary → param.name ≠ name
    let missing := sig.params.filter fun param =>
      param.isRequired ∧ param.name ∉ slots.take positions ∧ param.name ∉ names
    let before := s.diagnostics
    let after := ((ofRule env (Rule.bindArguments env sig args span)).run s).2.diagnostics
    after.count .tooManyPositional = before.count .tooManyPositional +
        (if ∃ param ∈ sig.params, param.role = .variadic then 0 else positions - slots.length) ∧
      after.count .duplicateArgument = before.count .duplicateArgument +
        (min positions slots.length + names.length -
          ((slots.take positions).toFinset ∪ names.toFinset).card) ∧
      after.messages .unknownNamedArgument = before.messages .unknownNamedArgument +
        unknown.val.map (fun name => (Finding.unknownNamedArgument sig.callee name).message) ∧
      after.messages .missingArgument = before.messages .missingArgument +
        (missing : Multiset ParamInfo).map (fun param =>
          (Finding.missingArgument param.name sig.callee).message) ∧
      (∀ reordered : List Argument, reordered.Perm args → ∀ code : Code, code.isPlain = false →
        ((ofRule env (Rule.bindArguments env sig reordered span)).run s).2.diagnostics.messages code =
          after.messages code) ∧
      ((∀ arg ∈ args, env.program.AcyclicExpr arg.value) →
        (ofRule env (Rule.bindArguments env sig args span)).Along
          (fun action _ => action.Proceeds) s) := by
  intro positions slots names unknown missing before after
  have hmessages (code : Code) (hcode : code.isPlain = false) : after.messages code =
      before.messages code + Finding.messagesUnder code (sig.faults positions names) :=
    bindArguments_messages hcode hargs sig span s
  simp only [Signature.messagesUnder_faults] at hmessages
  refine ⟨?_, ?_, ?_, ?_, ?_, ?_⟩
  · have hcount := congrArg Multiset.card (hmessages .tooManyPositional rfl)
    simpa [card_messages, Signature.surplus, Signature.variadic?, find?_isSome, slots] using hcount
  · have hcount := congrArg Multiset.card (hmessages .duplicateArgument rfl)
    simpa [card_messages, Signature.card_repeats_occupied, slots] using hcount
  · simpa [Signature.untaken_eq] using hmessages .unknownNamedArgument rfl
  · simpa [Signature.unfilled, Signature.occupied, missing, slots] using hmessages .missingArgument rfl
  · intro reordered hperm code hcode
    exact bindArguments_messages_perm hcode hargs hperm sig span s
  · intro hacyclic
    exact bindArguments_proceeds (fun arg harg => (hacyclic arg harg).ends) sig span s

theorem bindArguments_reports_sample :
    let env : Env := ⟨{ expressions := #[⟨{}, .literal (.int "1")⟩] }, {}⟩
    let sig : Signature := ⟨"f", [{ name := "a", ty := .prim .i32 },
      { name := "b", ty := .prim .i32, hasDefault := true },
      { name := "c", ty := .prim .i32, role := .namedOnly }]⟩
    let positional : Argument := { kind := .positional, value := ⟨0⟩ }
    let named (name : String) : Argument := { kind := .named ⟨name, {}⟩, value := ⟨0⟩ }
    let args := [positional, named "x", positional, named "b", positional, named "x"]
    let after := ((ofRule env (Rule.bindArguments env sig args {})).run {}).2.diagnostics
    (∀ arg ∈ args, arg.IsSingle ∧ env.program.CallFree arg.value) ∧
      after.count .tooManyPositional = 1 ∧ after.count .duplicateArgument = 2 ∧
      after.messages .unknownNamedArgument = {(Finding.unknownNamedArgument "f" "x").message} ∧
      after.messages .missingArgument = {(Finding.missingArgument "c" "f").message} := by
  intro env sig positional named args after
  have hfree (id : ExprId) : env.program.CallFree id := by
    rintro ⟨_ | index⟩ - callee args <;> simp [env, Program.expr, Expr.dangling]
  have hargs : ∀ arg ∈ args, arg.IsSingle ∧ env.program.CallFree arg.value := by
    simp [args, positional, named, Argument.IsSingle, hfree]
  obtain ⟨hmany, hrepeated, hunknown, hmissing, -, -⟩ := bindArguments_reports sig hargs {} {}
  exact ⟨hargs, hmany.trans (by decide), hrepeated.trans (by decide), hunknown.trans rfl,
    hmissing.trans rfl⟩

end Check

end StaticTyping
