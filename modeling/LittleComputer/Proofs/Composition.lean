import LittleComputer.FileSystem
import LittleComputer.Machine.Effect
import LittleComputer.Proofs.Action

/-!
# What a machine is able to do

Everything a machine does to itself and to its console it does by a handful of
`LittleComputer.Primitive`s: it polls, takes a key, shows a byte, reads or replaces
a register or a cell. An action is `LittleComputer.Composed` if it is put together
from primitives in one and the same way on every terminal. What all primitives
leave alone, and what they keep related on two machines, a composed action leaves
alone and keeps related; these are `LittleComputer.Composed.keeps` and
`LittleComputer.Composed.simulates`, and no proof about whole instructions has to
go through the instructions again.

An instruction either sets the condition register or does not touch it. One that
does is its `LittleComputer.Machine.result`, a word, put into the register
`LittleComputer.Instruction.target?` by `LittleComputer.Machine.assign`
(`LittleComputer.Machine.effect_eq_assign`). Apart from that last step, and for all
other instructions altogether, neither the condition register is touched nor an
instruction counted (`LittleComputer.Primitive.IsPlain`); and unless the instruction is
there to halt, the machine is not stopped either (`LittleComputer.Primitive.IsMild`).
Loading does less still: it leaves notices and replaces cells
(`LittleComputer.Machine.composed_loadFile`).
-/

namespace LittleComputer

/-! ### Primitives -/

/-- The single things that a machine does. -/
inductive Primitive : Type → Type
  /-- Poll for a key. -/
  | poll : Primitive Bool
  /-- Take the next key. -/
  | readKey : Primitive Byte
  /-- Show a byte. -/
  | showByte (b : Byte) : Primitive Unit
  /-- Pass on everything shown so far. -/
  | flush : Primitive Unit
  /-- Leave a notice. -/
  | note (n : Notice) : Primitive Unit
  /-- Ask how many keys can be taken without further input. -/
  | keysLeft : Primitive Nat
  /-- Ask how many instructions were carried out. -/
  | cycles : Primitive Nat
  /-- Read a register. -/
  | readSlot (s : Slot) : Primitive Word
  /-- Replace the content of a register. -/
  | writeSlot (s : Slot) (value : Word) : Primitive Unit
  /-- Look into a cell. -/
  | peek (address : Word) : Primitive Word
  /-- Replace the content of a cell. -/
  | writeCell (address value : Word) : Primitive Unit
  /-- Copy words to the cells from an address upwards. -/
  | load (address : Word) (words : List Word) : Primitive Unit
  /-- Stop the machine. -/
  | halt : Primitive Unit
  /-- Count one more instruction. -/
  | countCycle : Primitive Unit

namespace Primitive

/-- A primitive as an action of a machine. -/
def perform {T : Type} [Terminal T] {α : Type} : Primitive α → Action T α
  | poll => Machine.poll
  | readKey => Machine.readKey
  | showByte b => Machine.showByte b
  | flush => Machine.flush
  | note n => Machine.note n
  | keysLeft => return Terminal.keysLeft (← get).console.terminal
  | cycles => return (← get).cycles
  | readSlot s => Machine.readSlot s
  | writeSlot s value => Machine.writeSlot s value
  | peek address => return (← get).memory.peek address
  | writeCell address value => Machine.writeCell address value
  | load address words => modify fun m => { m with memory := m.memory.load address words }
  | halt => modify fun m => { m with halted := true }
  | countCycle => Machine.countCycle

/-- A primitive that neither touches the condition register nor counts an
instruction. -/
def IsPlain : (α : Type) → Primitive α → Prop
  | _, writeSlot s _ => s ≠ .cond
  | _, countCycle => False
  | _, _ => True

/-- A plain primitive that does not stop the machine either. -/
def IsMild : (α : Type) → Primitive α → Prop
  | _, halt => False
  | α, c => IsPlain α c

/-- A primitive that does not stop the machine. -/
def LetsRun : (α : Type) → Primitive α → Prop
  | _, halt => False
  | _, _ => True

/-- A primitive that does not count an instruction. -/
def IsUncounted : (α : Type) → Primitive α → Prop
  | _, countCycle => False
  | _, _ => True

/-- A primitive that has nothing to do with the console. -/
def IsLocal : (α : Type) → Primitive α → Prop
  | _, cycles | _, readSlot _ | _, writeSlot .. | _, peek _ | _, writeCell .. => True
  | _, load .. | _, halt | _, countCycle => True
  | _, _ => False

/-- A primitive that loading is made of. -/
def IsLoading : (α : Type) → Primitive α → Prop
  | _, note _ => True
  | _, load .. => True
  | _, _ => False

theorem IsPlain.isUncounted {α : Type} {c : Primitive α} (h : IsPlain α c) : IsUncounted α c := by
  cases c <;> trivial

theorem IsMild.isPlain {α : Type} {c : Primitive α} (h : IsMild α c) : IsPlain α c := by
  cases c <;> first | exact h | trivial

theorem IsMild.letsRun {α : Type} {c : Primitive α} (h : IsMild α c) : LetsRun α c := by
  cases c <;> trivial

theorem IsLoading.isPlain {α : Type} {c : Primitive α} (h : IsLoading α c) : IsPlain α c := by
  cases c <;> trivial

end Primitive

/-! ### Composed actions -/

/-- **Composed actions**: put together from primitives that are allowed, and from
failures, in one and the same way on every terminal. -/
inductive Composed (allowed : (α : Type) → Primitive α → Prop) :
    {α : Type} → (∀ (T : Type) [Terminal T], Action T α) → Prop
  | done {α : Type} (x : α) : Composed allowed fun _ _ => pure x
  | failed {α : Type} (f : Failure) : Composed allowed fun _ _ => (throw f : Action _ α)
  | single {α : Type} (c : Primitive α) (h : allowed α c) : Composed allowed fun _ _ => c.perform
  | next {α β : Type} {a : ∀ (T : Type) [Terminal T], Action T α}
      {f : α → ∀ (T : Type) [Terminal T], Action T β}
      (ha : Composed allowed a) (hf : ∀ x, Composed allowed (f x)) :
      Composed allowed fun T _ => a T >>= fun x => f x T

namespace Composed

variable {allowed : (α : Type) → Primitive α → Prop} {α : Type}
  {a b : ∀ (T : Type) [Terminal T], Action T α}

theorem mono {allowed' : (α : Type) → Primitive α → Prop}
    (h : ∀ α (c : Primitive α), allowed α c → allowed' α c) (ha : Composed allowed a) :
    Composed allowed' a := by
  induction ha with
  | done x => exact .done x
  | failed f => exact .failed f
  | single c hc => exact .single c (h _ c hc)
  | next _ _ iha ihf => exact .next iha ihf

theorem ite {P : Prop} [Decidable P] (ha : P → Composed allowed a)
    (hb : ¬P → Composed allowed b) : Composed allowed fun T _ => if P then a T else b T := by
  by_cases h : P
  · simpa only [if_pos h] using ha h
  · simpa only [if_neg h] using hb h

/-- **What every allowed primitive leaves alone, a composed action leaves alone.** -/
theorem keeps {T : Type} [Terminal T] {γ : Type} {view : Machine T → γ} (ha : Composed allowed a)
    (h : ∀ α (c : Primitive α), allowed α c → Keeps view (c.perform (T := T))) :
    Keeps view (a T) := by
  induction ha with
  | done x => exact Keeps.pure view x
  | failed f => exact fun _ => rfl
  | single c hc => exact h _ c hc
  | next _ _ iha ihf => exact iha.bind ihf

/-- **What every allowed primitive keeps related, a composed action keeps
related.** -/
theorem simulates {S T : Type} [Terminal S] [Terminal T] {E : Failure → Failure → Prop}
    {R : Machine S → Machine T → Prop} (ha : Composed allowed a) (hE : ∀ f, E f f)
    (h : ∀ α (c : Primitive α), allowed α c →
      Simulates E R (c.perform (T := S)) (c.perform (T := T))) :
    Simulates E R (a S) (a T) := by
  induction ha with
  | done x => exact Simulates.pure E R x
  | failed f => exact fun _ _ hst => ⟨.error (hE f), hst⟩
  | single c hc => exact h _ c hc
  | next _ _ iha ihf => exact iha.bind ihf

/-- **If every allowed primitive goes along or gives up, a composed action does.** -/
theorem follows {S T : Type} [Terminal S] [Terminal T] {D : Failure → Machine S → Prop}
    {R : Machine S → Machine T → Prop} (ha : Composed allowed a)
    (h : ∀ α (c : Primitive α), allowed α c →
      Follows D R (c.perform (T := S)) (c.perform (T := T))) :
    Follows D R (a S) (a T) := by
  induction ha with
  | done x => exact .of_simulates (Simulates.pure Eq R x)
  | failed f => exact fun _ _ hst => Or.inr ⟨rfl, hst⟩
  | single c hc => exact h _ c hc
  | next _ _ iha ihf => exact iha.bind ihf

end Composed

/-! ### The results of instructions -/

/-- The register in which an instruction leaves the word that the condition register
follows, if it sets the condition register at all. -/
def Instruction.target? : Instruction → Option Reg
  | addReg dest .. | addImm dest .. | andReg dest .. | andImm dest .. | not dest _ => some dest
  | ld dest _ | ldi dest _ | ldr dest .. | lea dest _ => some dest
  | trap .getc | trap .input => some 0
  | _ => none

/-- The instructions that stop the machine: the halt service, and words that are none. -/
def Instruction.Halts : Instruction → Prop
  | trap .halt => True
  | illegal _ => True
  | _ => False

namespace Machine

variable {T : Type} [Terminal T]

/-- What every trap does first: the link that it leaves in `R7`, and the
notice of the call. -/
def enterService (service : Service) : Action T Unit := do
  writeSlot (.general 7) (← readSlot .pc)
  note (.called service)

/-- What an instruction that sets the condition register does to find the word it
sets it by. -/
def result : Instruction → Action T Word
  | .addReg _ src1 src2 => do
    let x ← readSlot (.general src1)
    let y ← readSlot (.general src2)
    return x + y
  | .addImm _ src1 imm => return (← readSlot (.general src1)) + Field.extended imm
  | .andReg _ src1 src2 => do
    let x ← readSlot (.general src1)
    let y ← readSlot (.general src2)
    return x &&& y
  | .andImm _ src1 imm => return (← readSlot (.general src1)) &&& Field.extended imm
  | .not _ src => return ~~~(← readSlot (.general src))
  | .ld _ offset => do readCell (← relativeTo (Field.extended offset))
  | .ldi _ offset => do readCell (← readCell (← relativeTo (Field.extended offset)))
  | .ldr _ base offset => do readCell (← indexedBy base (Field.extended offset))
  | .lea _ offset => relativeTo (Field.extended offset)
  | .trap .getc => do
    enterService .getc
    return wordOfByte (← readKey)
  | .trap .input => do
    enterService .input
    showText Service.prompt
    flush
    let key ← readKey
    showByte key
    flush
    return wordOfByte key
  | _ => return 0

/-- **An instruction that sets the condition register assigns its result.** -/
theorem effect_eq_assign {i : Instruction} {dest : Reg} (h : i.target? = some dest) :
    effect (T := T) i = result i >>= assign dest := by
  cases i with
  | addReg | addImm | andReg | andImm | not | ld | ldi | ldr | lea =>
    cases h
    unfold effect result
    simp only [bind_assoc, pure_bind]
  | trap service =>
    cases service with
    | getc | input =>
      cases h
      unfold effect result serve serveWith
      simp only [enterService, receiveKey, bind_assoc, pure_bind]
    | _ => cases h
  | _ => cases h

/-! ### Instructions are composed -/

/-- An action that is composed of plain primitives. -/
abbrev Plain {α : Type} (a : ∀ (T : Type) [Terminal T], Action T α) : Prop :=
  Composed Primitive.IsPlain a

/-- An action that is composed of mild primitives. -/
abbrev Mild {α : Type} (a : ∀ (T : Type) [Terminal T], Action T α) : Prop :=
  Composed Primitive.IsMild a

omit [Terminal T] in
theorem Mild.plain {α : Type} {a : ∀ (T : Type) [Terminal T], Action T α} (ha : Mild a) :
    Plain a := ha.mono fun _ _ => Primitive.IsMild.isPlain

theorem mild_note (n : Notice) : Mild fun T _ => note (T := T) n := .single (.note n) trivial

theorem mild_latchKey : Mild fun T _ => latchKey (T := T) := by
  refine .next (.single .poll trivial) fun ready => .ite (fun _ => ?_) fun _ => ?_
  · refine .next (.single (.writeCell Memory.keyboardStatus Memory.keyReady) trivial) fun _ => ?_
    refine .next (.single .readKey trivial) fun key => ?_
    exact .single (.writeCell Memory.keyboardData (wordOfByte key)) trivial
  · exact .single (.writeCell Memory.keyboardStatus 0) trivial

theorem mild_readCell (address : Word) : Mild fun T _ => readCell (T := T) address := by
  refine .ite (fun _ => ?_) fun _ => ?_
  · exact .next mild_latchKey fun _ => .single (.peek address) trivial
  · exact .single (.peek address) trivial

theorem mild_relativeTo (distance : Word) : Mild fun T _ => relativeTo (T := T) distance :=
  .next (.single (.readSlot .pc) trivial) fun pc => .done (pc + distance)

theorem mild_indexedBy (base : Reg) (distance : Word) :
    Mild fun T _ => indexedBy (T := T) base distance :=
  .next (.single (.readSlot (.general base)) trivial) fun start => .done (start + distance)

theorem mild_showText (text : String) : Mild fun T _ => showText (T := T) text := by
  unfold showText
  generalize bytesOfText text = bytes
  induction bytes with
  | nil => exact .done ()
  | cons b rest ih => exact .next (.single (.showByte b) trivial) fun _ => ih

theorem mild_showString (bound : Nat) (address : Word) :
    Mild fun T _ => showString (T := T) bound address := by
  induction bound generalizing address with
  | zero => exact .done ()
  | succ bound ih =>
    refine .next (mild_readCell address) fun w => .ite (fun _ => .done ()) fun _ => ?_
    exact .next (.single (.showByte (lowByte w)) trivial) fun _ => ih (address + 1)

theorem mild_showPacked (bound : Nat) (address : Word) :
    Mild fun T _ => showPacked (T := T) bound address := by
  induction bound generalizing address with
  | zero => exact .done ()
  | succ bound ih =>
    refine .next (mild_readCell address) fun w => .ite (fun _ => .done ()) fun _ => ?_
    refine .next (.single (.showByte (lowByte w)) trivial) fun _ => ?_
    refine .ite (fun _ => .done ()) fun _ => ?_
    exact .next (.single (.showByte (highByte w)) trivial) fun _ => ih (address + 1)

theorem mild_enterService (s : Service) : Mild fun T _ => enterService (T := T) s := by
  refine .next (.single (.readSlot .pc) trivial) fun pc => ?_
  refine .next (.single (.writeSlot (.general 7) pc) Slot.noConfusion) fun _ => ?_
  exact mild_note (.called s)

/-! The services that look at the machine as a whole, in terms of what they look at. -/

theorem serve_puts : serve (T := T) .puts = (do
    let keys ← Primitive.keysLeft.perform
    let address ← readSlot (.general 0)
    showString (Memory.size * (keys + 1)) address
    flush) := by
  simp only [serve, serveWith, showString, Primitive.perform, readSlot, bind_assoc, pure_bind,
    get_bind_get]

theorem serve_putsp : serve (T := T) .putsp = (do
    let address ← readSlot (.general 0)
    showPacked Memory.size address
    flush) := by
  simp only [serve, serveWith, showPacked, readSlot, bind_assoc, pure_bind]

theorem serve_halt : serve (T := T) .halt = (do
    showText Service.farewell
    flush
    Primitive.halt.perform
    let cycles ← Primitive.cycles.perform
    note (.ended (cycles + 1))) := by
  simp only [serve, serveWith, Primitive.perform, bind_assoc, pure_bind]

/-- A service that neither sets the condition register nor halts is composed of mild
primitives. -/
theorem mild_serve {s : Service} (h : (Instruction.trap s).target? = none) (hs : s ≠ .halt) :
    Mild fun T _ => serve (T := T) s := by
  cases s with
  | getc => cases h
  | input => cases h
  | out =>
    refine .next (.single (.readSlot (.general 0)) trivial) fun w => ?_
    exact .next (.single (.showByte (lowByte w)) trivial) fun _ => .single .flush trivial
  | puts =>
    simp only [serve_puts]
    refine .next (.single .keysLeft trivial) fun keys => ?_
    refine .next (.single (.readSlot (.general 0)) trivial) fun address => ?_
    exact .next (mild_showString _ address) fun _ => .single .flush trivial
  | putsp =>
    simp only [serve_putsp]
    refine .next (.single (.readSlot (.general 0)) trivial) fun address => ?_
    exact .next (mild_showPacked _ address) fun _ => .single .flush trivial
  | halt => exact absurd rfl hs

theorem plain_serve_halt : Plain fun T _ => serve (T := T) .halt := by
  simp only [serve_halt]
  refine .next (mild_showText _).plain fun _ => .next (.single .flush trivial) fun _ => ?_
  refine .next (.single .halt trivial) fun _ => ?_
  exact .next (.single .cycles trivial) fun n => .single (.note (.ended (n + 1))) trivial

theorem effect_trap (s : Service) :
    effect (T := T) (.trap s) = enterService s >>= fun _ => serve s := by
  simp [effect, enterService]

/-- **What an instruction does apart from assigning a result and halting is mild.** -/
theorem mild_effect {i : Instruction} (h : i.target? = none) (hi : ¬i.Halts) :
    Mild fun T _ => effect (T := T) i := by
  cases i with
  | br cond offset =>
    refine .next (.single (.readSlot .cond) trivial) fun c => .ite (fun _ => ?_) fun _ => .done ()
    exact .next (mild_relativeTo _) fun target => .single (.writeSlot .pc target) Slot.noConfusion
  | jmp base =>
    refine .next (.single (.readSlot (.general base)) trivial) fun target => ?_
    exact .single (.writeSlot .pc target) Slot.noConfusion
  | jsr offset =>
    refine .next (.single (.readSlot .pc) trivial) fun pc => ?_
    refine .next (.single (.writeSlot (.general 7) pc) Slot.noConfusion) fun _ => ?_
    exact .single (.writeSlot .pc (pc + Field.extended offset)) Slot.noConfusion
  | jsrr base =>
    refine .next (.single (.readSlot (.general base)) trivial) fun target => ?_
    refine .next (.single (.readSlot .pc) trivial) fun pc => ?_
    refine .next (.single (.writeSlot (.general 7) pc) Slot.noConfusion) fun _ => ?_
    exact .single (.writeSlot .pc target) Slot.noConfusion
  | st src offset =>
    refine .next (mild_relativeTo _) fun address => ?_
    refine .next (.single (.readSlot (.general src)) trivial) fun value => ?_
    exact .single (.writeCell address value) trivial
  | sti src offset =>
    refine .next (mild_relativeTo _) fun address => ?_
    refine .next (mild_readCell address) fun pointer => ?_
    refine .next (.single (.readSlot (.general src)) trivial) fun value => ?_
    exact .single (.writeCell pointer value) trivial
  | str src base offset =>
    refine .next (mild_indexedBy base _) fun address => ?_
    refine .next (.single (.readSlot (.general src)) trivial) fun value => ?_
    exact .single (.writeCell address value) trivial
  | trap s =>
    have hs : s ≠ .halt := by
      rintro rfl
      exact hi trivial
    simp only [effect_trap]
    exact .next (mild_enterService s) fun _ => mild_serve h hs
  | illegal raw => exact absurd trivial hi
  | _ => cases h

/-- **What an instruction does apart from assigning a result is plain.** -/
theorem plain_effect {i : Instruction} (h : i.target? = none) :
    Plain fun T _ => effect (T := T) i := by
  by_cases hi : i.Halts
  · match i, hi with
    | .trap .halt, _ =>
      simp only [effect_trap]
      exact .next (mild_enterService .halt).plain fun _ => plain_serve_halt
    | .illegal raw, _ => exact .single .halt trivial
  · exact (mild_effect h hi).plain

/-- **Finding the result of an instruction is mild.** -/
theorem mild_result (i : Instruction) : Mild fun T _ => result (T := T) i := by
  cases i with
  | addReg dest src1 src2 | andReg dest src1 src2 =>
    refine .next (.single (.readSlot (.general src1)) trivial) fun x => ?_
    exact .next (.single (.readSlot (.general src2)) trivial) fun y => .done _
  | addImm dest src1 imm | andImm dest src1 imm =>
    exact .next (.single (.readSlot (.general src1)) trivial) fun x => .done _
  | not dest src => exact .next (.single (.readSlot (.general src)) trivial) fun x => .done _
  | ld dest offset =>
    exact .next (mild_relativeTo (Field.extended offset)) mild_readCell
  | ldi dest offset =>
    refine .next (mild_relativeTo (Field.extended offset)) fun address => ?_
    exact .next (mild_readCell address) mild_readCell
  | ldr dest base offset =>
    exact .next (mild_indexedBy base (Field.extended offset)) mild_readCell
  | lea dest offset => exact mild_relativeTo _
  | trap s =>
    cases s with
    | getc =>
      refine .next (mild_enterService .getc) fun _ => ?_
      exact .next (.single .readKey trivial) fun key => .done _
    | input =>
      refine .next (mild_enterService .input) fun _ => .next (mild_showText _) fun _ => ?_
      refine .next (.single .flush trivial) fun _ => .next (.single .readKey trivial) fun key => ?_
      refine .next (.single (.showByte key) trivial) fun _ => ?_
      exact .next (.single .flush trivial) fun _ => .done _
    | _ => exact .done 0
  | _ => exact .done 0

theorem composed_assign {allowed : (α : Type) → Primitive α → Prop}
    (h : ∀ s value, allowed Unit (.writeSlot s value)) (dest : Reg) (value : Word) :
    Composed allowed fun T _ => assign (T := T) dest value := by
  refine .next (.single (.writeSlot (.general dest) value) (h _ _)) fun _ => ?_
  exact .single (.writeSlot .cond (Flag.ofWord value).code) (h _ _)

/-- An instruction that assigns a result is composed of what the assignment needs, and of
mild primitives. -/
theorem composed_effect_of_target {allowed : (α : Type) → Primitive α → Prop} {i : Instruction}
    {dest : Reg} (hi : i.target? = some dest) (h : ∀ s value, allowed Unit (.writeSlot s value))
    (hmild : ∀ α (c : Primitive α), c.IsMild → allowed α c) :
    Composed allowed fun T _ => effect (T := T) i := by
  have heq : ∀ (T : Type) [Terminal T], effect (T := T) i = result i >>= assign dest :=
    fun _ _ => effect_eq_assign hi
  simp only [heq]
  exact .next ((mild_result i).mono hmild) (composed_assign h dest)

/-- **The effect of an instruction is composed of primitives that count none.** -/
theorem composed_effect (i : Instruction) :
    Composed Primitive.IsUncounted fun T _ => effect (T := T) i := by
  cases h : i.target? with
  | none => exact (plain_effect h).mono fun _ _ => Primitive.IsPlain.isUncounted
  | some dest =>
    exact composed_effect_of_target h (fun _ _ => trivial) fun _ _ hc => hc.isPlain.isUncounted

/-- **Only an instruction that is meant to stops the machine.** -/
theorem composed_effect_of_not_halts {i : Instruction} (hi : ¬i.Halts) :
    Composed Primitive.LetsRun fun T _ => effect (T := T) i := by
  cases h : i.target? with
  | none => exact (mild_effect h hi).mono fun _ _ => Primitive.IsMild.letsRun
  | some dest =>
    exact composed_effect_of_target h (fun _ _ => trivial) fun _ _ => Primitive.IsMild.letsRun

/-! ### Loading is composed -/

theorem composed_loadImage (name : String) (bytes : List Byte) :
    Composed Primitive.IsLoading fun T _ => loadImage (T := T) name bytes := by
  have hnote (n : Notice) : Composed Primitive.IsLoading fun T _ => note (T := T) n :=
    .single (.note n) trivial
  have hnotes (ns : List Notice) :
      Composed Primitive.IsLoading fun T _ => ns.forM (note (T := T)) := by
    induction ns with
    | nil => exact .done ()
    | cons n rest ih => exact .next (hnote n) fun _ => ih
  cases himage : Image.parse name bytes with
  | error f =>
    simp only [loadImage, himage]
    exact .failed f
  | ok parsed =>
    obtain ⟨image, notices⟩ := parsed
    simp only [loadImage, himage]
    have hload : Composed Primitive.IsLoading fun T _ => (do
        modify fun m : Machine T => { m with memory := m.memory.load image.origin image.words }
        note (.loaded name image.stored image.origin)
        return (image.origin, image.stored)) := by
      refine .next (.single (.load image.origin image.words) trivial) fun _ => ?_
      exact .next (hnote (.loaded name image.stored image.origin)) fun _ => .done _
    refine .next (hnotes notices) fun _ => .ite (fun _ => ?_) fun _ => hload
    exact .next (hnote (.wordsDropped name (image.words.length - image.stored))) fun _ => hload

/-- **Loading an image leaves notices and replaces cells, and does nothing else.** -/
theorem composed_loadFile (read : FileReader) (path : String) :
    Composed Primitive.IsLoading fun T _ => loadFile (T := T) read path := by
  cases hread : read path with
  | error f =>
    simp only [loadFile, hread]
    exact .failed f
  | ok bytes =>
    simp only [loadFile, hread]
    exact composed_loadImage path bytes

end Machine

end LittleComputer
