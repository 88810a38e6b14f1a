import HermesDecomp.Ir.Retains

/-!
# An engine that is watched

A watched engine does what it does otherwise. Beside its world it is recorded whether a variable
was stored to, what each later read of it sees together with what a read of another variable
would see there, and whether both variables are plain: each holds what was stored there last, and
no other operation changes what it holds.
-/

namespace HermesDecomp.Ir

open Action

variable {host : Host} {α : Type}

/-- What a variable holds in a world: every read of it sees the value. -/
def Host.Holds (host : Host) (name : String) (value : host.Val) (world : host.World) : Prop :=
  ∀ slot, (host.readVariable ⟨name, slot⟩ world).1 = .ok value

/-- The world of a watched engine. -/
structure Watch (host : Host) where
  world : host.World
  stored : Bool
  reads : List (Outcome host.Val host.Val × Outcome host.Val host.Val)
  plain : Prop

namespace Watch

/-- Nothing was recorded yet. -/
def start (world : host.World) : Watch host := ⟨world, false, [], True⟩

variable (x v : String)

/-- Two variables hold in one world what they hold in another. -/
def Leaves (world world' : host.World) : Prop :=
  ∀ name, name = x ∨ name = v → ∀ value, host.Holds name value world → host.Holds name value world'

/-- A watch after an operation that is to leave both variables alone. -/
def moveTo (world : host.World) (watch : Watch host) : Watch host :=
  { watch with world, plain := watch.plain ∧ Leaves x v watch.world world }

/-- An operation that is to leave both variables alone. -/
def elsewhere (operation : Action host.World host.Val α) : Action (Watch host) host.Val α :=
  fun watch => ((operation watch.world).1, watch.moveTo x v (operation watch.world).2)

/-- A read of a variable. What the second variable is seen to hold it is to hold. -/
def reading (name : Var) : Action (Watch host) host.Val host.Val := fun watch =>
  let seen := (host.readVariable name watch.world).1
  let world := (host.readVariable name watch.world).2
  (seen,
    { world
      stored := watch.stored
      reads :=
        if name.name = x ∧ watch.stored = true then
          watch.reads ++ [(seen, (host.readVariable { name with name := v } watch.world).1)]
        else watch.reads
      plain := watch.plain ∧ Leaves x v watch.world world ∧
        ∀ value, name.name = v → seen = .ok value → host.Holds v value world })

/-- A store to a variable. The first variable is to hold the value, and the second what it held
before. -/
def writing (name : String) (value : host.Val) (operation : Action host.World host.Val PUnit) :
    Action (Watch host) host.Val PUnit := fun watch =>
  if name = x then
    match operation watch.world with
    | (.ok _, world) => (.ok ⟨⟩,
        { world
          stored := true
          reads := watch.reads
          plain := watch.plain ∧ host.Holds x value world ∧
            ∀ content, host.Holds v content watch.world → host.Holds v content world })
    | (outcome, world) => (outcome, watch.moveTo x v world)
  else if name = v then
    ((operation watch.world).1, { watch with world := (operation watch.world).2 })
  else elsewhere x v operation watch

/-- A class. -/
def defining (name : String) (operation : Action host.World host.Val PUnit) :
    Action (Watch host) host.Val PUnit := fun watch =>
  if name = x ∨ name = v then
    ((operation watch.world).1, { watch with world := (operation watch.world).2 })
  else elsewhere x v operation watch

end Watch

open Watch in
/-- The engine with two of its variables watched. -/
def Host.watch (host : Host) (x v : String) : Host where
  Val := host.Val
  World := Watch host
  Key := host.Key
  constant := host.constant
  this := host.this
  global := host.global
  parameter := host.parameter
  arguments := host.arguments
  newTarget := host.newTarget
  super := host.super
  truthy := host.truthy
  nullish := host.nullish
  isUndefined := host.isUndefined
  strictEqual := host.strictEqual
  name := host.name
  index := host.index
  toKey value := elsewhere x v (host.toKey value)
  readVariable name := reading x v name
  readClosureVar level slot := elsewhere x v (host.readClosureVar level slot)
  setVariable name value := writing x v name.name value (host.setVariable name value)
  setClosureVar level slot value := elsewhere x v (host.setClosureVar level slot value)
  declare kind name value := writing x v name.name value (host.declare kind name value)
  openScope watch := watch.moveTo x v (host.openScope watch.world)
  closeScope watch := watch.moveTo x v (host.closeScope watch.world)
  unary op value := elsewhere x v (host.unary op value)
  binary op left right := elsewhere x v (host.binary op left right)
  getMember object key := elsewhere x v (host.getMember object key)
  setMember object key value := elsewhere x v (host.setMember object key value)
  deleteMember object key := elsewhere x v (host.deleteMember object key)
  deleteValue value := elsewhere x v (host.deleteValue value)
  call callee arguments := elsewhere x v (host.call callee arguments)
  construct callee arguments := elsewhere x v (host.construct callee arguments)
  spread value := elsewhere x v (host.spread value)
  newArray elements := elsewhere x v (host.newArray elements)
  newObject := elsewhere x v host.newObject
  define object key value := elsewhere x v (host.define object key value)
  function id name isArrow isAsync isGenerator :=
    elsewhere x v (host.function id name isArrow isAsync isGenerator)
  toText value := elsewhere x v (host.toText value)
  template quasis values := elsewhere x v (host.template quasis values)
  regExp pattern flags := elsewhere x v (host.regExp pattern flags)
  yield delegate value := elsewhere x v (host.yield delegate value)
  await value := elsewhere x v (host.await value)
  jsx tag attributes children := elsewhere x v (host.jsx tag attributes children)
  unknown opcode operands := elsewhere x v (host.unknown opcode operands)
  requireObject value := elsewhere x v (host.requireObject value)
  restOf value keys := elsewhere x v (host.restOf value keys)
  iterate value := elsewhere x v (host.iterate value)
  enumerate value := elsewhere x v (host.enumerate value)
  advance iterator := elsewhere x v (host.advance iterator)
  collect iterator := elsewhere x v (host.collect iterator)
  close iterator := elsewhere x v (host.close iterator)
  debugger := elsewhere x v host.debugger
  defineClass name base constructor methods :=
    defining x v name (host.defineClass name base constructor methods)
  caught value watch := watch.moveTo x v (host.caught value watch.world)

namespace Watch

variable {x v : String}

/-- As long as the variables are plain, the second holds what the first does once that was stored
to, and every read of the first saw this. -/
def Sound (x v : String) (watch : Watch host) : Prop :=
  watch.plain →
    (watch.stored = true → ∃ value, host.Holds x value watch.world ∧
      host.Holds v value watch.world) ∧
    ∀ seen ∈ watch.reads, ∃ value, seen = (.ok value, .ok value)

theorem start_sound (world : host.World) : (start world).Sound x v := by
  intro _
  exact ⟨fun stored => (by cases stored), fun _ member => (by cases member)⟩

theorem Leaves.both {world world' : host.World} (leaves : Leaves x v world world')
    {value : host.Val} (held : host.Holds x value world ∧ host.Holds v value world) :
    host.Holds x value world' ∧ host.Holds v value world' :=
  ⟨leaves x (.inl rfl) value held.1, leaves v (.inr rfl) value held.2⟩

theorem Sound.moveTo {watch : Watch host} (sound : watch.Sound x v) (world : host.World) :
    (watch.moveTo x v world).Sound x v := by
  rintro ⟨plain, leaves⟩
  obtain ⟨same, saw⟩ := sound plain
  refine ⟨fun stored => ?_, saw⟩
  obtain ⟨value, held⟩ := same stored
  exact ⟨value, leaves.both held⟩

theorem preserves_elsewhere (operation : Action host.World host.Val α) :
    ∀ watch : Watch host, watch.Sound x v → (elsewhere x v operation watch).2.Sound x v :=
  fun _ sound => sound.moveTo _

theorem preserves_reading (name : Var) (watch : Watch host) (sound : watch.Sound x v) :
    (reading x v name watch).2.Sound x v := by
  rintro ⟨plain, leaves, _⟩
  obtain ⟨same, saw⟩ := sound plain
  refine ⟨fun stored => ?_, fun seen member => ?_⟩
  · obtain ⟨value, held⟩ := same stored
    exact ⟨value, leaves.both held⟩
  · simp only [reading] at member
    split at member
    case isTrue isRead =>
      obtain ⟨rfl, stored⟩ := isRead
      rcases List.mem_append.mp member with before | here
      · exact saw seen before
      · obtain ⟨value, onFirst, onSecond⟩ := same stored
        refine ⟨value, ?_⟩
        rw [List.mem_singleton.mp here, onFirst name.slot, onSecond name.slot]
    case isFalse => exact saw seen member

theorem preserves_writing {name : String} (other : name ≠ x ∧ name ≠ v) (value : host.Val)
    (operation : Action host.World host.Val PUnit) (watch : Watch host)
    (sound : watch.Sound x v) : (writing x v name value operation watch).2.Sound x v := by
  rw [writing, if_neg other.1, if_neg other.2]
  exact preserves_elsewhere operation watch sound

theorem preserves_defining {name : String} (other : name ≠ x ∧ name ≠ v)
    (operation : Action host.World host.Val PUnit) (watch : Watch host)
    (sound : watch.Sound x v) : (defining x v name operation watch).2.Sound x v := by
  rw [defining, if_neg (not_or.mpr other)]
  exact preserves_elsewhere operation watch sound

/-- As long as the variables are plain, a variable holds a value. -/
def Held (name : String) (value : host.Val) (watch : Watch host) : Prop :=
  watch.plain → host.Holds name value watch.world

/-- What a read of the second variable sees it holds from then on. -/
theorem held_reading {place : Var} (isSecond : place.name = v) (watch : Watch host)
    (value : host.Val) (sees : (reading x v place watch).1 = .ok value) :
    Held v value (reading x v place watch).2 :=
  fun plain => plain.2.2 value isSecond sees

/-- A store of what the second variable holds to the first. -/
theorem sound_writing {value : host.Val} (operation : Action host.World host.Val PUnit)
    {watch : Watch host} (sound : watch.Sound x v) (held : watch.Held v value) :
    (writing x v x value operation watch).2.Sound x v := by
  rw [writing, if_pos rfl]
  split
  case h_1 world _ =>
    rintro ⟨plain, onFirst, onSecond⟩
    exact ⟨fun _ => ⟨value, onFirst, onSecond value (held plain)⟩, (sound plain).2⟩
  case h_2 => exact sound.moveTo _

end Watch

open Watch in
/-- A watch stays sound where neither variable is bound. -/
theorem Host.watch_keeping (host : Host) (x v : String) :
    (host.watch x v).Keeping (Sound x v) (fun name => name ≠ x ∧ name ≠ v) where
  toKey _ := preserves_elsewhere _
  readVariable name := preserves_reading name
  readClosureVar _ _ := preserves_elsewhere _
  setVariable name value other :=
    @preserves_writing host x v name.name other value (host.setVariable name value)
  setClosureVar _ _ _ := preserves_elsewhere _
  declare kind name value other :=
    @preserves_writing host x v name.name other value (host.declare kind name value)
  openScope _ sound := sound.moveTo _
  closeScope _ sound := sound.moveTo _
  unary _ _ := preserves_elsewhere _
  binary _ _ _ := preserves_elsewhere _
  getMember _ _ := preserves_elsewhere _
  setMember _ _ _ := preserves_elsewhere _
  deleteMember _ _ := preserves_elsewhere _
  deleteValue _ := preserves_elsewhere _
  call _ _ := preserves_elsewhere _
  construct _ _ := preserves_elsewhere _
  spread _ := preserves_elsewhere _
  newArray _ := preserves_elsewhere _
  newObject := preserves_elsewhere _
  define _ _ _ := preserves_elsewhere _
  function _ _ _ _ _ := preserves_elsewhere _
  toText _ := preserves_elsewhere _
  template _ _ := preserves_elsewhere _
  regExp _ _ := preserves_elsewhere _
  yield _ _ := preserves_elsewhere _
  await _ := preserves_elsewhere _
  jsx _ _ _ := preserves_elsewhere _
  unknown _ _ := preserves_elsewhere _
  requireObject _ := preserves_elsewhere _
  restOf _ _ := preserves_elsewhere _
  iterate _ := preserves_elsewhere _
  enumerate _ := preserves_elsewhere _
  advance _ := preserves_elsewhere _
  collect _ := preserves_elsewhere _
  close _ := preserves_elsewhere _
  debugger := preserves_elsewhere _
  defineClass _ _ _ _ other := preserves_defining other _

end HermesDecomp.Ir
