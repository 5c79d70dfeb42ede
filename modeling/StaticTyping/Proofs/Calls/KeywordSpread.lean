import StaticTyping.Proofs.Calls.Spread
import StaticTyping.Proofs.Output.Order

/-! To spread a map that is written out, with string literals for keys, is to name its entries. The spread
visits all keys first and then all values, and it has words of its own for a name that is given already.
Apart from these words and from the types of the keys and of the map, both calls come to the same. -/

namespace StaticTyping

open State Argument List Rule Check

/-- What is said where a keyword spread gives a name that is given already. -/
def Ident.overlap (name : Ident) : Diagnostic :=
  (Finding.keywordSpreadOverlap name.name).toDiagnostic name.span

/-- What is said where a named argument gives a name that is given already. -/
def Ident.repetition (name : Ident) : Diagnostic :=
  (Finding.argumentRepeated name.name).toDiagnostic name.span

/-- Place by place the diagnostics are the same, but that the names in `again` are overlaps in the first
and repetitions in the second. -/
def Diagnostics.Respelt (again : Multiset Ident) (ds es : Diagnostics) : Prop :=
  ∃ entries : List (Diagnostic ⊕ Ident),
    ds.entries.toList = entries.map (Sum.elim id Ident.overlap) ∧
      es.entries.toList = entries.map (Sum.elim id Ident.repetition) ∧
      (entries.filterMap Sum.getRight? : Multiset Ident) = again

variable {again : Multiset Ident} {ids : List ExprId} {env : Env} {spread : Argument} {id : ExprId}

namespace Diagnostics.Respelt

variable {ds es : Diagnostics}

protected lemma refl (ds : Diagnostics) : ds.Respelt 0 ds :=
  ⟨ds.entries.toList.map .inl, by simp, by simp, by simp [filterMap_map, Function.comp_def]⟩

variable (h : ds.Respelt again es)

include h

lemma push (d : Diagnostic) : (ds.push d).Respelt again (es.push d) := by
  obtain ⟨entries, hds, hes, hagain⟩ := h
  exact ⟨entries ++ [.inl d], by simp [hds], by simp [hes], by simpa [filterMap_cons] using hagain⟩

lemma pushAgain (name : Ident) :
    (ds.push name.overlap).Respelt (again + {name}) (es.push name.repetition) := by
  obtain ⟨entries, hds, hes, hagain⟩ := h
  refine ⟨entries ++ [.inr name], by simp [hds], by simp [hes], ?_⟩
  rw [← hagain]
  simp [← Multiset.coe_add]

lemma size_eq : ds.size = es.size := by
  obtain ⟨entries, hds, hes, -⟩ := h
  simp [Diagnostics.size_eq, hds, hes]

lemma hoist (start middle : Nat) :
    (ds.hoist start middle).Respelt again (es.hoist start middle) := by
  obtain ⟨entries, hds, hes, hagain⟩ := h
  by_cases hmiddle : start ≤ middle ∧ middle ≤ entries.length
  · refine ⟨hoisted start middle entries, ?_, ?_, ?_⟩
    · simp [toList_hoist, hds, map_hoisted, hmiddle]
    · simp [toList_hoist, hes, map_hoisted, hmiddle]
    · rw [← hagain]
      exact Multiset.coe_eq_coe.mpr ((hoisted_perm hmiddle.1 entries).filterMap _)
  · exact ⟨entries, by simp [toList_hoist, hds, hmiddle], by simp [toList_hoist, hes, hmiddle], hagain⟩

end Diagnostics.Respelt

/-- The states of a call that spreads a map and of one that names its entries: the types of the
expressions in `ids` may differ, and the names in `again` are said to be given already in other words. -/
abbrev State.Respells (ids : List ExprId) (again : Multiset Ident) : State → State → Prop :=
  DiffersIn (TypeTable.AgreesOff ids) (Diagnostics.Respelt again)

namespace State.Respells

protected lemma refl (s : State) : Respells ids 0 s s :=
  ⟨rfl, fun _ _ => rfl, .refl s.diagnostics⟩

lemma unnoticed (ids : List ExprId) (again : Multiset Ident) : Unnoticed (Respells ids again) :=
  DiffersIn.unnoticed (fun _ _ id ty h => h.record id ty) (fun _ _ d h => h.push d)
    (fun _ _ start middle h => h.hoist start middle) (fun _ _ h => h.size_eq)

lemma recordFirst {s t : State} (h : Respells ids again s t) (hid : id ∈ ids)
    (ty : Ty) : Respells ids again ((Action.record id ty).step s).2 t :=
  ⟨h.rest, h.types.recordFirst hid ty, h.diagnostics⟩

lemma reportAgain {s t : State} (h : Respells ids again s t) (name : Ident) :
    Respells ids (again + {name}) ((Action.report name.overlap).step s).2
      ((Action.report name.repetition).step t).2 := by
  refine ⟨?_, h.types, h.diagnostics.pushAgain name⟩
  conv_lhs => rw [h.rest]
  rfl

end State.Respells

def Argument.label? (arg : Argument) : Option Ident :=
  match arg.kind with
  | .named name => some name
  | _ => none

/-- The argument is for the key of the entry, a string literal, and has its value. -/
def MapEntry.WrittenAs (env : Env) (entry : MapEntry) (arg : Argument) : Prop :=
  ∃ key, env.exprKind entry.key = .literal (.string key) ∧
    arg.kind = .named ⟨key, env.exprSpan entry.key⟩ ∧ arg.value = entry.value

/-- The first argument spreads a map that is written out, and the others name its entries. -/
structure Argument.SpreadsEntries (env : Env) (spread : Argument) (entries : List MapEntry)
    (written : List Argument) : Prop where
  kind : spread.kind = .keywordSpread
  map : env.exprKind spread.value = .map entries
  named : List.Forall₂ (MapEntry.WrittenAs env) entries written

/-- Of names that are given one after another, those that are given already when their turn comes. -/
def givenAgain : List String → List Ident → List Ident
  | _, [] => []
  | supplied, name :: rest =>
    if supplied.contains name.name then name :: givenAgain supplied rest
    else givenAgain (name.name :: supplied) rest

variable {arg : Argument} {entries : List MapEntry} {written : List Argument}

namespace Rule

variable {sig : Signature} {entries : List MapEntry} {written : List Argument} {entry : MapEntry}

lemma literalKey_exprEnds (h : entry.WrittenAs env arg) : env.program.ExprEnds entry.key := by
  obtain ⟨key, hkey, -⟩ := h
  have hnone : env.program.exprChildren entry.key = [] := by
    show (env.exprKind entry.key).children = []
    rw [hkey]
    rfl
  exact ⟨trivial, by simp [hnone]⟩

lemma spreadKey_eq (h : entry.WrittenAs env arg) : ofRule env (do
      let ty ← visit (.value (some .string)) entry.key
      checkSpreadKey ty (env.exprSpan entry.key)
      return ty) =
    ofRule env (do
      record entry.key .string
      return Ty.string) := by
  have hends := literalKey_exprEnds h
  obtain ⟨key, hkey, -⟩ := h
  have hexpression : expression env (.value (some .string)) entry.key = do
      record entry.key .string
      return Ty.string := by
    simp only [expression, roleType, valueType, hkey, literalType, pure_bind]
  simp only [ofRule_bind, ofRule_visit _ hends, hexpression, bind_assoc]
  rfl

variable (h : Forall₂ (MapEntry.WrittenAs env) entries written)

include h

lemma spreadKeyTypes_first (hids : ∀ entry ∈ entries, entry.key ∈ ids) :
    Relates env (Respells ids again) (spreadKeyTypes env entries) (pure ()) fun _ _ =>
      Respells ids again := by
  induction h with
  | nil => exact fun _ _ hst => hst
  | @cons entry arg rest written hentry _ ih =>
    obtain ⟨hkey, hrest⟩ := forall_mem_cons.mp hids
    have hone : Relates env (Respells ids again)
        (do
          let ty ← visit (.value (some .string)) entry.key
          checkSpreadKey ty (env.exprSpan entry.key)
          return ty)
        (pure ()) fun _ _ => Respells ids again := by
      intro s t hst
      rw [spreadKey_eq hentry]
      exact hst.recordFirst hkey .string
    rw [spreadKeyTypes, mapM_cons]
    refine hone.first fun ty => (ih hrest).first fun types => ?_
    exact .pure fun _ _ hst => hst

lemma literalKeys_eq : entries.mapM env.program.literalKey? =
      some ((written.filterMap label?).map (·.name)) := by
  induction h with
  | nil => rfl
  | @cons entry arg rest written hentry _ ih =>
    obtain ⟨key, hkey, hkind, -⟩ := hentry
    have hliteral : env.program.literalKey? entry = some key := by
      unfold Env.exprKind at hkey
      unfold Program.literalKey?
      rw [hkey]
    simp [mapM_cons, hliteral, ih, label?, hkind]

lemma bindEntries_relates (hid : id ∈ ids) (f : List Ty → Ty) (b : Binding) :
    Relates env (Respells ids again)
      (do
        let bound ← bindEntries env sig b
          (((written.filterMap label?).map (·.name)).zip entries)
        record id (f bound.1)
        return bound.2)
      (written.foldlM (bindArgument env sig) b)
      (Same (Respells ids
        (again + givenAgain b.supplied (written.filterMap label?)))) := by
  -- As for tuples, `f` holds the types that are known. Names given again join those known so far.
  induction h generalizing f b again with
  | nil =>
    intro s t hst
    simpa [givenAgain] using ⟨rfl, hst.recordFirst hid (f [])⟩
  | @cons entry arg rest written hentry _ ih =>
    obtain ⟨key, hkey, hkind, hvalue⟩ := hentry
    simp only [label?, filterMap_cons, map_cons, zip_cons_cons,
      bindEntries, foldlM_cons, bindArgument, hkind, hvalue, bind_assoc, pure_bind]
    by_cases hgiven : b.supplied.contains key
    · simp only [bindNamed, hgiven, if_true, bind_assoc, pure_bind, givenAgain]
      have hreport : Relates env (Respells ids again)
          (report (.keywordSpreadOverlap key) (env.exprSpan entry.key))
          (report (.argumentRepeated key) (env.exprSpan entry.key))
          (Same (Respells ids (again + {⟨key, env.exprSpan entry.key⟩}))) :=
        fun s t hst => ⟨rfl, hst.reportAgain ⟨key, env.exprSpan entry.key⟩⟩
      refine hreport.bindSame fun _ => .andThen (Respells.unnoticed ids _) _ fun ty => ?_
      have hnext : Relates env (Respells ids (again + {⟨key, env.exprSpan entry.key⟩})) _ _ _ :=
        ih (fun types => f (ty :: types)) b
      simpa only [add_assoc, Multiset.singleton_add, Multiset.cons_coe, label?] using hnext
    · simp only [bindNamed, hgiven, Bool.false_eq_true, if_false, bind_assoc, pure_bind, givenAgain]
      refine .andThen (Respells.unnoticed ids _) _ fun ty => ?_
      exact ih (fun types => f (ty :: types)) (b.supply key)

omit h

def spreadIds (spread : Argument) (entries : List MapEntry) : List ExprId :=
  spread.value :: entries.map (·.key)

lemma bindArgument_relates (h : spread.SpreadsEntries env entries written) (b : Binding) :
    Relates env (Respells (spreadIds spread entries) again) (bindArgument env sig b spread)
      (written.foldlM (bindArgument env sig) b) (Same (Respells (spreadIds spread entries)
        (again + givenAgain b.supplied (written.filterMap label?)))) := by
  have hkeys : ∀ entry ∈ entries, entry.key ∈ spreadIds spread entries :=
    fun entry hentry => mem_cons_of_mem _ (mem_map_of_mem hentry)
  simp only [bindArgument, h.kind, h.map, bindMapLiteral, literalKeys_eq h.named]
  refine (spreadKeyTypes_first h.named hkeys).first fun keyTypes => ?_
  exact bindEntries_relates h.named (mem_cons_self ..)
    (fun types => if entries.isEmpty then .map .string .unknown
      else .map (.makeUnion keyTypes) (.makeUnion types)) b

def bindFrom (env : Env) (sig : Signature) (b : Binding) (args : List Argument) (span : Span) :
    Rule Unit := do
  let bound ← args.foldlM (bindArgument env sig) b
  reportMissing sig bound span

lemma bindArguments_append (before rest : List Argument) (span : Span) :
    bindArguments env sig (before ++ rest) span =
      before.foldlM (bindArgument env sig) (.start sig) >>= fun b =>
        bindFrom env sig b rest span := by
  simp [bindArguments, bindFrom, foldlM_append]

lemma bindFrom_relates (sig : Signature) (h : spread.SpreadsEntries env entries written)
    (after : List Argument) (span : Span) (b : Binding) :
    Relates env (Respells (spreadIds spread entries) again)
      (bindFrom env sig b (spread :: after) span) (bindFrom env sig b (written ++ after) span)
      (Same (Respells (spreadIds spread entries)
        (again + givenAgain b.supplied (written.filterMap label?)))) := by
  simp only [bindFrom, foldlM_cons, foldlM_append, bind_assoc]
  exact (bindArgument_relates h b).bindSame fun _ => .refl (Respells.unnoticed _ _) _

end Rule

lemma MapEntry.WrittenAs.values_eq (h : Forall₂ (MapEntry.WrittenAs env) entries written) :
    written.map (·.value) = entries.map (·.value) := by
  induction h with
  | nil => rfl
  | cons hentry _ ih =>
    obtain ⟨-, -, -, hvalue⟩ := hentry
    simp [hvalue, ih]

lemma Argument.SpreadsEntries.child
    (h : spread.SpreadsEntries env entries written) (harg : arg ∈ written) :
    arg.value ∈ env.program.exprChildren spread.value := by
  have hmem : arg.value ∈ entries.map (·.value) :=
    MapEntry.WrittenAs.values_eq h.named ▸ mem_map_of_mem harg
  obtain ⟨entry, hentry, hvalue⟩ := mem_map.mp hmem
  show arg.value ∈ (env.exprKind spread.value).children
  rw [h.map]
  exact mem_flatMap.mpr ⟨entry, hentry, by simp [hvalue]⟩

namespace Check

variable {entries : List MapEntry} {written : List Argument}

lemma callType_bound {callee : ExprId} {s : State} {sig : Signature} {result : Ty}
    (hcallee : ((ofRule env (resolveCallee env callee)).run s).1 = .bound sig result)
    (args : List Argument) (span : Span) : (ofRule env (callType env callee args span)).run s =
      (result, ((ofRule env (bindArguments env sig args span)).run
        ((ofRule env (resolveCallee env callee)).run s).2).2) := by
  simp only [callType, ofRule_bind, run_bind, hcallee]
  rfl

/-- In any state, whatever with known parameters is called and whatever other arguments there are, a call
that spreads a map written out with string literals for keys and the call that names the entries of the
map in its place come to the same type. Place by place they report the same, but that a name which is
given already is an overlap in the one and a repetition in the other. They leave the same state but for
that and for the types of the keys and of the map. Neither gives up where the way down from the parts of
the call ends. -/
theorem callType_keyword_spread (callee : ExprId) (before after : List Argument) (span : Span)
    (h : spread.SpreadsEntries env entries written) {s : State} {sig : Signature} {result : Ty}
    (hcallee : ((ofRule env (Rule.resolveCallee env callee)).run s).1 = .bound sig result) :
    let spreading := ofRule env (Rule.callType env callee (before ++ spread :: after) span)
    let naming := ofRule env (Rule.callType env callee (before ++ written ++ after) span)
    let bound := ofRule env (do
      let _ ← Rule.resolveCallee env callee
      before.foldlM (Rule.bindArgument env sig) (.start sig))
    (spreading.run s).1 = (naming.run s).1 ∧
      (spreading.run s).2.Respells (Rule.spreadIds spread entries)
        (givenAgain (bound.run s).1.supplied (written.filterMap Argument.label?)) (naming.run s).2 ∧
      (env.program.AcyclicExpr callee →
        (∀ arg ∈ before ++ spread :: after, env.program.AcyclicExpr arg.value) →
        spreading.Along (fun action _ => action.Proceeds) s ∧
          naming.Along (fun action _ => action.Proceeds) s) := by
  intro spreading naming bound
  -- Up to the spread both calls are one. From there on they are followed side by side.
  have hrest := bindFrom_relates sig h after span (bound.run s).1 (bound.run s).2
    (bound.run s).2 (.refl _)
  rw [zero_add] at hrest
  refine ⟨?_, ?_, fun hcallee hargs => ?_⟩
  · simp only [spreading, naming, callType_bound hcallee]
  · simpa only [spreading, naming, bound, callType_bound hcallee, append_assoc,
      bindArguments_append, ofRule_bind, run_bind] using hrest.2
  · have hends : ∀ arg ∈ before ++ spread :: after, env.program.ExprEnds arg.value :=
      fun arg harg => (hargs arg harg).ends
    refine ⟨callType_proceeds hcallee.ends hends span s, ?_⟩
    apply callType_proceeds hcallee.ends
    intro arg harg
    by_cases hmem : arg ∈ written
    · exact (hends spread (by simp)).child (h.child hmem)
    · exact hends arg (by
        simp only [mem_append, hmem, or_false] at harg
        simp [or_left_comm, harg])

/-- The parts of a call that spreads a map with three entries, of which two have the same key. -/
def keywordSample : Env where
  program := { expressions := #[⟨{}, .name "f"⟩, ⟨{}, .literal (.bool true)⟩,
    ⟨{}, .literal (.string "n")⟩, ⟨{}, .literal (.int "1")⟩, ⟨{}, .literal (.string "flag")⟩,
    ⟨{}, .literal (.string "a")⟩, ⟨{ line := 2 }, .literal (.string "n")⟩, ⟨{}, .literal .null⟩,
    ⟨{}, .map [⟨⟨2⟩, ⟨3⟩⟩, ⟨⟨4⟩, ⟨5⟩⟩, ⟨⟨6⟩, ⟨7⟩⟩]⟩] }
  options := {}

lemma keywordSample_acyclic (id : ExprId) : keywordSample.program.AcyclicExpr id :=
  fun a _ => Program.exprs_acyclic_of_descending (by decide) a

theorem callType_keyword_spread_sample :
    let spread : Argument := { kind := .keywordSpread, value := ⟨8⟩ }
    let entries : List MapEntry := [⟨⟨2⟩, ⟨3⟩⟩, ⟨⟨4⟩, ⟨5⟩⟩, ⟨⟨6⟩, ⟨7⟩⟩]
    let written : List Argument := [{ kind := .named ⟨"n", {}⟩, value := ⟨3⟩ },
      { kind := .named ⟨"flag", {}⟩, value := ⟨5⟩ }, { kind := .named ⟨"n", { line := 2 }⟩, value := ⟨7⟩ }]
    let before : List Argument := [{ kind := .named ⟨"flag", {}⟩, value := ⟨1⟩ }]
    let sig : Signature :=
      ⟨"f", [{ name := "n", ty := .prim .i32 }, { name := "flag", ty := .bool }]⟩
    let s : State := {
      symbols := ⟨#[{ name := "f", kind := .function, params := sig.params }]⟩
      scopes := { inner := { values := [("f", ⟨0⟩)] } } }
    let spreading := ofRule keywordSample
      (callType keywordSample ⟨0⟩ (before ++ spread :: []) {})
    let naming := ofRule keywordSample
      (callType keywordSample ⟨0⟩ (before ++ written ++ []) {})
    spread.SpreadsEntries keywordSample entries written ∧
      ((ofRule keywordSample (resolveCallee keywordSample ⟨0⟩)).run s).1 = .bound sig .unknown ∧
      (spreading.run s).1 = (naming.run s).1 ∧
      (spreading.run s).2.Respells (spreadIds spread entries)
        ([⟨"flag", {}⟩, ⟨"n", { line := 2 }⟩] : List Ident) (naming.run s).2 ∧
      spreading.Along (fun action _ => action.Proceeds) s ∧
      naming.Along (fun action _ => action.Proceeds) s := by
  intro spread entries written before sig s spreading naming
  have hspreads : spread.SpreadsEntries keywordSample entries written :=
    ⟨rfl, rfl, .cons ⟨"n", rfl, rfl, rfl⟩ (.cons ⟨"flag", rfl, rfl, rfl⟩
      (.cons ⟨"n", rfl, rfl, rfl⟩ .nil))⟩
  have hcallee : ((ofRule keywordSample (resolveCallee keywordSample ⟨0⟩)).run s).1 =
      .bound sig .unknown := rfl
  have hsupplied : ((ofRule keywordSample (do
      let _ ← resolveCallee keywordSample ⟨0⟩
      before.foldlM (bindArgument keywordSample sig) (.start sig))).run s).1.supplied =
      ["flag"] := by decide +kernel
  obtain ⟨htype, hstate, hproceeds⟩ := callType_keyword_spread ⟨0⟩ before [] {} hspreads hcallee
  rw [hsupplied] at hstate
  exact ⟨hspreads, hcallee, htype, hstate,
    hproceeds (keywordSample_acyclic _) fun _ _ => keywordSample_acyclic _⟩

end Check

end StaticTyping
