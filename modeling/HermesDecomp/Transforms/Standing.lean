import HermesDecomp.Transforms.PropagateSweeps

/-!
# What stands for a register at a place

A register that is assigned once, as a parameter, a constant or the global object, has that value
everywhere. Any other register has, inside a block, the value last assigned to it, as long as no
register this value is read from is assigned again.
-/

namespace HermesDecomp.Ir.Propagate

/-- What an assigned expression becomes, given what stands for the registers in it. -/
inductive Becomes (stands : Nat → Expression → Prop) : Expression → Expression → Prop where
  | plain {value : Value} (propagatable : (Expression.value value).isPropagatable = true)
      (notRegister : ∀ register, value ≠ .binding (.register register)) :
      Becomes stands (.value value) (.value value)
  | copied {register : Nat} {expression : Expression} (stood : stands register expression) :
      Becomes stands (.register register) expression
  | alone {register : Nat} (free : ∀ expression, ¬ stands register expression) :
      Becomes stands (.register register) (.register register)
  | member {object object' : Expression} {name : String} (becomes : Becomes stands object object')
      (known : (Expression.member object' (.ident name) false).isPropagatable = true) :
      Becomes stands (.member object (.ident name) false) (.member object' (.ident name) false)

section Standing

variable (graph : Cfg) (block : BlockId)

/-- One value for the whole function, and else the copy of the block. -/
def Prefers (copied : Nat → Expression → Prop) (register : Nat) (expression : Expression) : Prop :=
  match resolveInvariantRegister graph 17 register with
  | some value => expression = value
  | none => copied register expression

/-- The copies of a block before one of its statements. -/
def LocalCopy : Nat → Nat → Expression → Prop
  | 0, _, _ => False
  | index + 1, register, expression =>
      match graph.statementAt ⟨block, index⟩ with
      | some (.assignReg target value) =>
          if register = target then Becomes (Prefers graph (LocalCopy index)) value expression
          else LocalCopy index register expression ∧ expression ≠ .register target
      | _ => LocalCopy index register expression

end Standing

/-- What stands for a register at a point. -/
def Stands (graph : Cfg) (point : Point) : Nat → Expression → Prop :=
  Prefers graph (LocalCopy graph point.block point.index)

variable {graph : Cfg} {copies : Copies} {stands : Nat → Expression → Prop}

theorem invariantCopies_eq (register : Nat) :
    invariantCopies graph register = resolveInvariantRegister graph 17 register := by
  cases found : invariantCopies graph register with
  | some expression => exact (resolve_of_invariantCopies found).symm
  | none =>
    cases resolved : resolveInvariantRegister graph 17 register with
    | none => rfl
    | some expression =>
      have once : defCount graph register = 1 := by
        rw [resolveInvariantRegister] at resolved
        split at resolved
        · exact absurd resolved.symm (Option.some_ne_none _)
        · rename_i once
          exact not_not.mp once
      have positive : 0 < defCount graph register := once ▸ Nat.one_pos
      obtain ⟨site, member, same⟩ := List.countP_pos_iff.mp positive
      have listed : (register, expression) ∈ globalInvariantCopies graph := by
        refine List.mem_filterMap.mpr ⟨register, ?_, by rw [resolved]; rfl⟩
        rw [List.mem_dedup]
        exact List.mem_map.mpr ⟨site, member, of_decide_eq_true same⟩
      have absent := List.lookup_eq_none_iff.mp found _ listed
      exact absurd rfl (bne_iff_ne.mp absent)

/-- What is preferred in the pass is what is preferred of its copies. -/
theorem preferred_eq_some (same : ∀ register expression,
      copies register = some expression ↔ stands register expression) (register : Nat)
    (expression : Expression) :
    preferred (invariantCopies graph) copies register = some expression ↔
      Prefers graph stands register expression := by
  unfold preferred Prefers
  rw [invariantCopies_eq]
  cases resolveInvariantRegister graph 17 register with
  | some value => exact ⟨fun found => (Option.some.inj found).symm, fun found => congrArg some found.symm⟩
  | none => exact same register expression

/-- A property that may be propagated is a named one of the global object or of a text. -/
theorem isPropagatable_member {object : Expression} {property : PropertyKey} {optional : Bool}
    (propagatable : (Expression.member object property optional).isPropagatable = true) :
    optional = false ∧ (∃ name, property = .ident name) ∧
      ∃ value, object = .value value ∧ (Expression.value value).isPropagatable = true := by
  unfold Expression.isPropagatable at propagatable
  split at propagatable
  · contradiction
  · contradiction
  · rename_i isMember
    obtain ⟨rfl, rfl, rfl⟩ := isMember
    exact ⟨rfl, ⟨_, rfl⟩, _, rfl, rfl⟩
  · rename_i isMember
    obtain ⟨rfl, rfl, rfl⟩ := isMember
    exact ⟨rfl, ⟨_, rfl⟩, _, rfl, rfl⟩
  · cases propagatable

/-- A key is a name after a substitution only when it was one. -/
theorem substitute_eq_ident {property : PropertyKey} {name : String}
    (isName : property.substitute copies = .ident name) : property = .ident name := by
  cases property with
  | ident _ => exact isName
  | string _ | index _ => exact PropertyKey.noConfusion isName
  | computed key =>
    change indexKey (key.substitute copies) = .ident name at isName
    unfold indexKey at isName
    split at isName
    · exact PropertyKey.noConfusion isName
    · split at isName <;> exact PropertyKey.noConfusion isName
    · exact PropertyKey.noConfusion isName

/-- An expression is a value after a substitution only when it was one. -/
theorem substitute_eq_value {expression : Expression} {value : Value}
    (isValue : expression.substitute copies = .value value) : ∃ value, expression = .value value := by
  cases expression with
  | value value => exact ⟨value, rfl⟩
  | _ => exact Expression.noConfusion isValue

/-- The substitution makes of an assigned expression what it becomes, where that may be
propagated. -/
theorem becomes_iff (same : ∀ register expression,
      copies register = some expression ↔ stands register expression)
    (propagatable : ∀ register expression, copies register = some expression →
      expression.isPropagatable = true) (value expression : Expression) :
    Becomes stands value expression ↔
      value.substitute copies = expression ∧ expression.isPropagatable = true := by
  constructor
  · intro becomes
    induction becomes with
    | @plain value isPropagatable notRegister =>
      refine ⟨?_, isPropagatable⟩
      cases value with
      | binding place =>
        cases place with
        | register register => exact absurd rfl (notRegister register)
        | «variable» | closureVar => rfl
      | constant | this | global | parameter | arguments | newTarget | super => rfl
    | @copied register expression stood =>
      have found := (same register expression).mpr stood
      refine ⟨?_, propagatable register expression found⟩
      change (copies register).getD (.register register) = expression
      rw [found]
      rfl
    | @alone register free =>
      refine ⟨?_, rfl⟩
      change (copies register).getD (.register register) = .register register
      cases found : copies register with
      | none => rfl
      | some expression => exact absurd ((same register expression).mp found) (free expression)
    | member _ known ih => exact ⟨congrArg (Expression.member · _ false) ih.1, known⟩
  · rintro ⟨rfl, isPropagatable⟩
    have ofValue : ∀ value : Value, (((Expression.value value).substitute copies).isPropagatable = true) →
        Becomes stands (.value value) ((Expression.value value).substitute copies) := by
      intro value isPropagatable
      by_cases isRegister : ∃ register, value = .binding (.register register)
      · obtain ⟨register, rfl⟩ := isRegister
        change Becomes stands (.register register) ((copies register).getD (.register register))
        cases found : copies register with
        | some expression => exact .copied ((same register expression).mp found)
        | none =>
          refine .alone ?_
          intro expression stood
          rw [(same register expression).mpr stood] at found
          exact absurd found (Option.some_ne_none _)
      · have notRegister : ∀ register, value ≠ .binding (.register register) :=
          fun register isValue => isRegister ⟨register, isValue⟩
        have unchanged : (Expression.value value).substitute copies = .value value := by
          cases value with
          | binding place =>
            cases place with
            | register register => exact absurd rfl (notRegister register)
            | «variable» | closureVar => rfl
          | constant | this | global | parameter | arguments | newTarget | super => rfl
        rw [unchanged] at isPropagatable ⊢
        exact .plain isPropagatable notRegister
    cases value with
    | value value => exact ofValue value isPropagatable
    | member object property optional =>
      obtain ⟨rfl, ⟨name, isName⟩, value, isValue, valueFits⟩ := isPropagatable_member isPropagatable
      obtain rfl := substitute_eq_ident isName
      obtain ⟨content, rfl⟩ := substitute_eq_value isValue
      exact .member (ofValue content (by rw [isValue]; exact valueFits)) isPropagatable
    | _ => exact nomatch isPropagatable

/-- One statement more. -/
theorem after_take_succ (copies : Copies) (statements : List Statement) (index : Nat) :
    copies.after (statements.take (index + 1)) =
      match statements[index]? with
      | some statement => (copies.after (statements.take index)).track
          (statement.substitute (copies.after (statements.take index)))
      | none => copies.after (statements.take index) := by
  induction statements generalizing copies index with
  | nil => cases index <;> rfl
  | cons statement rest ih =>
    cases index with
    | zero => rfl
    | succ index => exact ih _ index

/-- The copies the pass has before a statement of a block. -/
def copiesBefore (graph : Cfg) (block : BlockId) (index : Nat) : Copies :=
  Copies.empty.after (((graph.statements block).map (invariantStatement graph)).take index)

theorem settled_copiesBefore (block : BlockId) (index : Nat) :
    (copiesBefore graph block index).Settled :=
  Copies.settled_empty.after _

theorem isPropagatable_preferred (settled : copies.Settled) {register : Nat}
    {expression : Expression}
    (found : preferred (invariantCopies graph) copies register = some expression) :
    expression.isPropagatable = true := by
  unfold preferred at found
  cases one : invariantCopies graph register with
  | none =>
    rw [one] at found
    exact settled.propagatable register expression found
  | some value =>
    rw [one] at found
    obtain ⟨⟩ := found
    obtain ⟨value, rfl, fixed⟩ := isFixed_of_resolve (resolve_of_invariantCopies one)
    cases value with
    | parameter | global | constant => rfl
    | binding | this | arguments | newTarget | super => exact nomatch fixed

/-- Only a plain assignment changes the copies of a block. -/
theorem localCopy_of_none {block : BlockId} {index : Nat} {statement : Statement}
    (present : graph.statementAt ⟨block, index⟩ = some statement)
    (plain : statement.definition? = none) (register : Nat) (expression : Expression) :
    LocalCopy graph block (index + 1) register expression ↔
      LocalCopy graph block index register expression := by
  rw [LocalCopy, present]
  cases statement with
  | assign target value =>
    cases target with
    | binding place =>
      cases place with
      | register target => exact absurd plain (Option.some_ne_none _)
      | _ => rfl
    | _ => rfl
  | _ => rfl

/-- The copies of a block after a plain assignment. -/
theorem localCopy_assign {block : BlockId} {index target : Nat} {value : Expression}
    (present : graph.statementAt ⟨block, index⟩ = some (.assignReg target value)) (register : Nat)
    (expression : Expression) :
    LocalCopy graph block (index + 1) register expression ↔
      if register = target then Becomes (Prefers graph (LocalCopy graph block index)) value expression
      else LocalCopy graph block index register expression ∧ expression ≠ .register target := by
  rw [LocalCopy, present]

/-- A propagated expression that is a plain value reads a register when it is one. -/
theorem usesRegister_iff {expression : Expression} (propagatable : expression.isPropagatable = true)
    (register : Nat) :
    expression.usesRegister register = true ↔ expression = .register register := by
  unfold Expression.isPropagatable at propagatable
  split at propagatable
  · exact ⟨(fun used => nomatch used), (fun same => nomatch same)⟩
  · rename_i value _
    cases value with
    | binding place =>
      cases place with
      | register used =>
        change (used == register) = true ↔ _
        rw [beq_iff_eq]
        constructor
        · rintro rfl
          rfl
        · intro same
          injection same with same
          injection same with same
          injection same
      | «variable» | closureVar => exact ⟨(fun used => nomatch used), (fun same => nomatch same)⟩
    | constant | this | global | parameter | arguments | newTarget | super =>
      exact ⟨(fun used => nomatch used), (fun same => nomatch same)⟩
  · exact ⟨(fun used => nomatch used), (fun same => nomatch same)⟩
  · exact ⟨(fun used => nomatch used), (fun same => nomatch same)⟩
  · cases propagatable

/-- The copies of the pass are the copies of the block. -/
theorem copiesBefore_eq_some (block : BlockId) (index : Nat) : ∀ register expression,
    copiesBefore graph block index register = some expression ↔
      LocalCopy graph block index register expression := by
  induction index with
  | zero => exact fun register expression => ⟨(fun found => nomatch found), False.elim⟩
  | succ index ih =>
    intro register expression
    have step : copiesBefore graph block (index + 1) =
        match graph.statementAt ⟨block, index⟩ with
        | some statement => (copiesBefore graph block index).track
            (statement.substitute (preferred (invariantCopies graph) (copiesBefore graph block index)))
        | none => copiesBefore graph block index := by
      have here : graph.statementAt ⟨block, index⟩ = (graph.statements block)[index]? := rfl
      rw [copiesBefore, after_take_succ, List.getElem?_map, here]
      cases (graph.statements block)[index]? with
      | none => rfl
      | some statement =>
        dsimp only [Option.map_some]
        rw [substitute_invariantStatement]
        rfl
    rw [step]
    cases present : graph.statementAt ⟨block, index⟩ with
    | none =>
      rw [LocalCopy, present]
      exact ih register expression
    | some statement =>
      cases defines : statement.definition? with
      | none =>
        have plain : (statement.substitute (preferred (invariantCopies graph)
            (copiesBefore graph block index))).definition? = none := by
          rw [Statement.definition?_substitute, defines]
        dsimp only
        rw [Copies.track_of_none plain, ih, localCopy_of_none present defines]
      | some target =>
        obtain ⟨value, rfl⟩ := Statement.eq_assignReg defines
        have values : Becomes (Prefers graph (LocalCopy graph block index)) value expression ↔
            value.substitute (preferred (invariantCopies graph) (copiesBefore graph block index)) =
              expression ∧ expression.isPropagatable = true :=
          becomes_iff (preferred_eq_some ih)
            (fun _ _ => isPropagatable_preferred (settled_copiesBefore block index)) value expression
        rw [localCopy_assign present]
        dsimp only
        rw [Statement.substitute_assignReg, Copies.track_assignReg]
        by_cases here : register = target
        · rw [if_pos here, if_pos here, values]
          split
          · rename_i propagatable
            constructor
            · rintro ⟨⟩
              exact ⟨rfl, propagatable⟩
            · rintro ⟨same, _⟩
              exact congrArg some same
          · rename_i unfit
            constructor
            · exact fun found => nomatch found
            · rintro ⟨rfl, propagatable⟩
              exact absurd propagatable unfit
        · rw [if_neg here, if_neg here, Option.filter_eq_some_iff, ← ih]
          have unused : copiesBefore graph block index register = some expression →
              ((!expression.usesRegister target) = true ↔ expression ≠ .register target) := by
            intro found
            have propagatable :=
              (settled_copiesBefore block index).propagatable register expression found
            rw [Bool.not_eq_true', ← Bool.not_eq_true, usesRegister_iff propagatable]
          constructor
          · rintro ⟨found, free⟩
            exact ⟨found, (unused found).mp free⟩
          · rintro ⟨found, free⟩
            exact ⟨found, (unused found).mpr free⟩

/-- What the pass puts for a register is what stands for it. -/
theorem copiesAt_eq_some (point : Point) (register : Nat) (expression : Expression) :
    copiesAt graph point register = some expression ↔ Stands graph point register expression :=
  preferred_eq_some (copiesBefore_eq_some point.block point.index) register expression

end HermesDecomp.Ir.Propagate
