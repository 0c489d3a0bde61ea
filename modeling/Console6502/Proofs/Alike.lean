import Console6502.Proofs.Runs

-- Registers that differ in some bits of the status byte only. An action that senses none of
-- these bits asks the bus for the same on both sides and leaves them as the only difference.
namespace Console6502

theorem and_or_distrib (left right mask : UInt8) :
    (left ||| right) &&& mask = (left &&& mask) ||| (right &&& mask) := by
  rw [← UInt8.toBitVec_inj]
  exact BitVec.and_or_distrib_right

theorem not_and_of_disjoint {kept mask : UInt8} (hidden : kept &&& mask = 0) :
    ~~~mask &&& kept = kept := by
  have split : kept = (kept &&& mask) ||| (~~~mask &&& kept) := by
    rw [← UInt8.toBitVec_inj]
    simp only [UInt8.toBitVec_or,UInt8.toBitVec_and,UInt8.toBitVec_not]
    ext i inside
    simp only [BitVec.getElem_or,BitVec.getElem_and,BitVec.getElem_not]
    grind
  rw [hidden,UInt8.zero_or] at split
  exact split.symm

theorem or_eq_of_and_not {left right mask : UInt8} (same : left &&& ~~~mask = right &&& ~~~mask) :
    left ||| mask = right ||| mask := by
  rw [← UInt8.toBitVec_inj] at same ⊢
  ext i inside
  have bit := congrArg (·[i]) same
  simp only [UInt8.toBitVec_or,UInt8.toBitVec_and,UInt8.toBitVec_not,BitVec.getElem_or,
    BitVec.getElem_and,BitVec.getElem_not] at bit ⊢
  grind

-- Equal in every bit of `kept`.
def Status.Alike (kept : UInt8) (left right : Status) : Prop :=
  left.byte &&& kept = right.byte &&& kept

namespace Status.Alike

variable {kept mask : UInt8} {left right : Status}

theorem refl (s : Status) : s.Alike kept s := rfl

theorem symm (alike : left.Alike kept right) : right.Alike kept left := Eq.symm alike

theorem narrow (alike : left.Alike kept right) (within : mask &&& kept = mask) :
    left.Alike mask right := by
  unfold Alike at alike ⊢
  grind

theorem any (alike : left.Alike kept right) (within : mask &&& kept = mask) :
    left.any mask = right.any mask := by
  rw [Status.any,Status.any,alike.narrow within]

theorem assign (alike : left.Alike kept right) (mask : UInt8) (on : Bool) :
    (left.assign mask on).Alike kept (right.assign mask on) := by
  unfold Alike at alike ⊢
  cases on with
  | true => simp only [Status.assign,if_true,and_or_distrib,alike]
  | false =>
    simp only [Status.assign,Bool.false_eq_true,if_false]
    grind

theorem withBit (alike : left.Alike kept right) (index value : UInt8) :
    (left.withBit index value).Alike kept (right.withBit index value) := by
  unfold Alike at alike ⊢
  simp only [Status.withBit,and_or_distrib]
  grind

theorem withNegative (alike : left.Alike kept right) (result : UInt8) :
    (left.withNegative result).Alike kept (right.withNegative result) := alike.withBit _ _

theorem withResult (alike : left.Alike kept right) (result : UInt8) :
    (left.withResult result).Alike kept (right.withResult result) :=
  (alike.withNegative result).withBit _ _

theorem assign_hidden (alike : left.Alike kept right) (hidden : kept &&& mask = 0) (on : Bool) :
    (left.assign mask on).Alike kept right := by
  unfold Alike at alike ⊢
  rw [← alike]
  cases on with
  | true =>
    simp only [Status.assign,if_true]
    rw [and_or_distrib,UInt8.and_comm mask,hidden,UInt8.or_zero]
  | false =>
    simp only [Status.assign,Bool.false_eq_true,if_false]
    rw [UInt8.and_assoc,not_and_of_disjoint hidden]

-- A push forces bits 4 and 5 on, so it shows the other six.
theorem pushed (alike : left.Alike kept right) (within : 0b11001111 &&& kept = 0b11001111) :
    left.pushed = right.pushed := by
  rw [Status.pushed,Status.pushed,UInt8.or_assoc,UInt8.or_assoc]
  exact or_eq_of_and_not (alike.narrow within)

end Status.Alike

def Registers.Alike (kept : UInt8) (left right : Registers) : Prop :=
  ∃ status,right = { left with p := status } ∧ left.p.Alike kept status

namespace Registers.Alike

variable {kept : UInt8} {left right : Registers}

theorem flags {change other : Status → Status} (alike : left.Alike kept right)
    (kind : ∀ {one two : Status},one.Alike kept two → (change one).Alike kept (other two)) :
    (left.flags change).Alike kept (right.flags other) := by
  obtain ⟨status,rfl,same⟩ := alike
  exact ⟨_,rfl,kind same⟩

theorem putFlag (alike : left.Alike kept right) (flag : Flag) (on : Bool) :
    (left.putFlag flag on).Alike kept (right.putFlag flag on) := alike.flags (·.assign _ _)

theorem put (alike : left.Alike kept right) (target : Register) (value : UInt8) :
    (left.put target value).Alike kept (right.put target value) := by
  obtain ⟨status,rfl,same⟩ := alike
  cases target <;> exact ⟨status,rfl,same⟩

theorem get (alike : left.Alike kept right) (target : Register) : left.get target = right.get target := by
  obtain ⟨status,rfl,_⟩ := alike
  cases target <;> rfl

theorem accumulator (alike : left.Alike kept right) : right.a = left.a := (alike.get .a).symm

theorem counter (alike : left.Alike kept right) : right.pc = left.pc := by
  obtain ⟨status,rfl,_⟩ := alike
  rfl

theorem ready (alike : left.Alike kept right) : right.ready = left.ready := by
  obtain ⟨status,rfl,_⟩ := alike
  rfl

theorem load (alike : left.Alike kept right) (target : Register) (value : UInt8) :
    (left.load target value).Alike kept (right.load target value) :=
  (alike.put target value).flags (·.withResult _)

theorem advance (alike : left.Alike kept right) (delta : UInt16) :
    (left.advance delta).Alike kept (right.advance delta) := by
  obtain ⟨status,rfl,same⟩ := alike
  exact ⟨status,rfl,same⟩

theorem has (alike : left.Alike kept right) {flag : Flag} (shown : flag.mask &&& kept = flag.mask) :
    left.p.has flag = right.p.has flag := by
  obtain ⟨status,rfl,same⟩ := alike
  exact same.any shown

theorem deriveOverflow (alike : left.Alike kept right) {rule other : OverflowRule}
    (agree : rule = other ∨ kept &&& Flag.overflow.mask = 0) (on : Bool) :
    (left.deriveOverflow rule on).Alike kept (right.deriveOverflow other on) := by
  rcases agree with rfl | hidden
  · cases rule with
    | ignore => exact alike
    | derive => exact alike.putFlag .overflow on
  · obtain ⟨status,rfl,same⟩ := alike
    cases rule <;> cases other
    · exact ⟨_,rfl,same⟩
    · exact ⟨_,rfl,(same.symm.assign_hidden hidden on).symm⟩
    · exact ⟨_,rfl,same.assign_hidden hidden on⟩
    · exact ⟨_,rfl,same.assign _ _⟩

theorem add (alike : left.Alike kept right) (carry : Flag.carry.mask &&& kept = Flag.carry.mask)
    {rule other : OverflowRule} (agree : rule = other ∨ kept &&& Flag.overflow.mask = 0)
    (value : UInt8) : (left.add value rule).Alike kept (right.add value other) := by
  simp only [Registers.add]
  rw [← alike.has carry,alike.accumulator]
  exact ((alike.putFlag _ _).deriveOverflow agree _).load _ _

theorem subtract (alike : left.Alike kept right) (carry : Flag.carry.mask &&& kept = Flag.carry.mask)
    {rule other : OverflowRule} (agree : rule = other ∨ kept &&& Flag.overflow.mask = 0)
    (value : UInt8) : (left.subtract value rule).Alike kept (right.subtract value other) := by
  simp only [Registers.subtract]
  rw [← alike.has carry,alike.accumulator]
  exact ((alike.putFlag _ _).deriveOverflow agree _).load _ _

theorem compare (alike : left.Alike kept right) (one two : UInt8) :
    (left.compare one two).Alike kept (right.compare one two) :=
  ((alike.putFlag _ _).putFlag _ _).flags (·.withNegative _)

theorem testBits (alike : left.Alike kept right) (value : UInt8) :
    (left.testBits value).Alike kept (right.testBits value) := by
  simp only [Registers.testBits]
  rw [alike.accumulator]
  exact ((alike.putFlag _ _).putFlag _ _).putFlag _ _

theorem modify (alike : left.Alike kept right) (carry : Flag.carry.mask &&& kept = Flag.carry.mask)
    (transform : Transform) : (left.modify transform).Alike kept (right.modify transform) := by
  simp only [Registers.modify]
  rw [← alike.has carry,alike.accumulator]
  exact (alike.putFlag _ _).load _ _

theorem branch (alike : left.Alike kept right) {flag : Flag} (shown : flag.mask &&& kept = flag.mask)
    (wanted : Bool) (offset : Int8) :
    (left.branch flag wanted offset).Alike kept (right.branch flag wanted offset) := by
  simp only [Registers.branch]
  rw [← alike.has shown]
  split
  · exact alike.advance _
  · exact alike

end Registers.Alike

namespace Transaction

variable {α β γ δ : Type}

-- Notes are not compared: the log may show the status byte.
inductive Mirrors (related : α → β → Prop) : Transaction α → Transaction β → Prop where
  | done {left right} (result : related left right) : Mirrors related (.done left) (.done right)
  | read {address left right} (next : ∀ byte,Mirrors related (left byte) (right byte)) :
      Mirrors related (.read address left) (.read address right)
  | write {address value left right} (next : Mirrors related left right) :
      Mirrors related (.write address value left) (.write address value right)
  | note {first second left right} (next : Mirrors related left right) :
      Mirrors related (.note first left) (.note second right)

theorem mirrors_self (t : Transaction α) : Mirrors Eq t t := by
  induction t with
  | done => exact .done rfl
  | read address next ih => exact .read ih
  | write address value next ih => exact .write ih
  | note event next ih => exact .note ih

variable {related : α → β → Prop} {later : γ → δ → Prop} {left : Transaction α} {right : Transaction β}

theorem Mirrors.bind {one : α → Transaction γ} {two : β → Transaction δ}
    (first : Mirrors related left right)
    (rest : ∀ x y,related x y → Mirrors later (one x) (two y)) :
    Mirrors later (left >>= one) (right >>= two) := by
  induction first with
  | done result => exact rest _ _ result
  | read _ ih => exact .read ih
  | write _ ih => exact .write ih
  | note _ ih => exact .note ih

theorem mirrors_after (t : Transaction α) {one : α → Transaction γ} {two : α → Transaction δ}
    (rest : ∀ x,Mirrors later (one x) (two x)) : Mirrors later (t >>= one) (t >>= two) :=
  t.mirrors_self.bind fun x _ same => same ▸ rest x

theorem Mirrors.run {σ : Type} [ByteSource σ] (mirrors : Mirrors related left right) (bus : Bus σ) :
    related (left.run bus).1 (right.run bus).1 ∧ (left.run bus).2 = (right.run bus).2 := by
  induction mirrors generalizing bus with
  | done result => exact ⟨result,rfl⟩
  | read _ ih => exact ih _ _
  | write _ ih => exact ih _
  | note _ ih => exact ih _

end Transaction

theorem Mode.resolve_status (mode : Mode) (r : Registers) (status : Status) :
    mode.resolve { r with p := status } =
      (fun found => (found.1,{ found.2 with p := status })) <$> mode.resolve r := by
  cases mode <;> rfl

theorem Operand.value_status (operand : Operand) (r : Registers) (status : Status) :
    operand.value { r with p := status } = operand.value r := by
  cases operand <;> rfl

-- The status bits that settle more than bits of the same byte. BRK as an interrupt and PHP
-- show all but the two that a push forces on.
def Action.senses (action : Action) (rule : BreakRule) : UInt8 :=
  match action with
  | .add | .subtract | .modify _ => Flag.carry.mask
  | .branch flag _ => flag.mask
  | .pushStatus => 0b11001111
  | .enterBreak =>
    match rule with
    | .halt => 0
    | .interrupt => 0b11001111
  | _ => 0

open Transaction

namespace Registers.Alike

variable {kept : UInt8} {left right : Registers}

theorem push (alike : left.Alike kept right) (value : UInt8) :
    Mirrors (Alike kept) (left.push value) (right.push value) := by
  obtain ⟨status,rfl,same⟩ := alike
  exact .write (.done ⟨status,rfl,same⟩)

theorem pushWord (alike : left.Alike kept right) (value : UInt16) :
    Mirrors (Alike kept) (left.pushWord value) (right.pushWord value) :=
  (alike.push _).bind fun _ _ alike => alike.push _

theorem pushStatus (alike : left.Alike kept right) (within : 0b11001111 &&& kept = 0b11001111) :
    Mirrors (Alike kept) left.pushStatus right.pushStatus := by
  have shown : left.p.pushed = right.p.pushed := by
    obtain ⟨status,rfl,same⟩ := alike
    exact same.pushed within
  rw [Registers.pushStatus,Registers.pushStatus,shown]
  exact alike.push _

def With {α : Type} (kept : UInt8) (one two : α × Registers) : Prop :=
  one.1 = two.1 ∧ one.2.Alike kept two.2

theorem pull (alike : left.Alike kept right) : Mirrors (With kept) left.pull right.pull := by
  obtain ⟨status,rfl,same⟩ := alike
  exact .read fun _ => .done ⟨rfl,status,rfl,same⟩

theorem pullWord (alike : left.Alike kept right) : Mirrors (With kept) left.pullWord right.pullWord := by
  refine alike.pull.bind ?_
  rintro ⟨low,one⟩ ⟨_,two⟩ ⟨rfl,alike⟩
  refine alike.pull.bind ?_
  rintro ⟨high,one⟩ ⟨_,two⟩ ⟨rfl,alike⟩
  exact .done ⟨rfl,alike⟩

theorem pullStatus (alike : left.Alike kept right) :
    Mirrors (Alike kept) left.pullStatus right.pullStatus := by
  refine alike.pull.bind ?_
  rintro ⟨byte,one⟩ ⟨_,two⟩ ⟨rfl,status,rfl,_⟩
  exact .done ⟨_,rfl,.refl _⟩

theorem jump (alike : left.Alike kept right) (target : UInt16) :
    Alike kept { left with pc := target } { right with pc := target } := by
  obtain ⟨status,rfl,same⟩ := alike
  exact ⟨status,rfl,same⟩

theorem modifyCell (alike : left.Alike kept right) (carry : Flag.carry.mask &&& kept = Flag.carry.mask)
    (address : UInt32) (transform : Transform) :
    Mirrors (Alike kept) (left.modifyCell address transform) (right.modifyCell address transform) := by
  simp only [Registers.modifyCell]
  rw [← alike.has carry]
  refine mirrors_after _ fun value => mirrors_after _ fun _ => .done ?_
  exact (alike.putFlag _ _).flags (·.withResult _)

theorem enterBreak (alike : left.Alike kept right) {rule : BreakRule}
    (within : rule = .interrupt → 0b11001111 &&& kept = 0b11001111) :
    Mirrors (Alike kept) (left.enterBreak rule) (right.enterBreak rule) := by
  simp only [Registers.enterBreak,alike.counter]
  cases rule with
  | halt =>
    obtain ⟨status,rfl,same⟩ := alike
    exact .note (.done ⟨status,rfl,same⟩)
  | interrupt =>
    refine (alike.pushWord _).bind fun _ _ alike => ?_
    refine (alike.pushStatus (within rfl)).bind fun _ _ alike => ?_
    exact mirrors_after _ fun target => .done ((alike.putFlag _ _).jump target)

end Registers.Alike

theorem Action.perform_alike {kept : UInt8} {action : Action} {config : Config} {rule : OverflowRule}
    {left right : Registers} (agree : config.overflow = rule ∨ kept &&& Flag.overflow.mask = 0)
    (blind : action.senses config.onBreak &&& kept = action.senses config.onBreak)
    (alike : left.Alike kept right) (operand : Operand) :
    Mirrors (Registers.Alike kept) (action.perform config operand left)
      (action.perform { config with overflow := rule } operand right) := by
  have valued : operand.value right = operand.value left := by
    obtain ⟨status,rfl,_⟩ := alike
    exact operand.value_status left status
  cases action with
  | load target =>
    rw [perform,perform,valued]
    exact mirrors_after _ fun _ => .done (alike.load _ _)
  | combine logic =>
    rw [perform,perform,valued,alike.accumulator]
    exact mirrors_after _ fun _ => .done (alike.load _ _)
  | testBits =>
    rw [perform,perform,valued]
    exact mirrors_after _ fun _ => .done (alike.testBits _)
  | compare source =>
    rw [perform,perform,valued,← alike.get]
    exact mirrors_after _ fun _ => .done (alike.compare _ _)
  | add =>
    rw [perform,perform,valued]
    exact mirrors_after _ fun _ => .done (alike.add blind agree _)
  | subtract =>
    rw [perform,perform,valued]
    exact mirrors_after _ fun _ => .done (alike.subtract blind agree _)
  | store source =>
    cases operand with
    | address place =>
      rw [perform,perform,← alike.get]
      exact mirrors_after _ fun _ => .done alike
    | _ => exact .done alike
  | transfer source target | count source delta =>
    rw [perform,perform,← alike.get]
    exact .done (alike.load _ _)
  | setStackPointer =>
    rw [perform,perform,show right.x = left.x from (alike.get .x).symm]
    exact .done (alike.put _ _)
  | modify transform =>
    cases operand with
    | accumulator => exact .done (alike.modify blind _)
    | address place => exact alike.modifyCell blind _ _
    | _ => exact .done alike
  | assign flag on => exact .done (alike.putFlag _ _)
  | branch flag wanted =>
    cases operand with
    | displacement offset => exact .done (alike.branch blind _ _)
    | _ => exact .done alike
  | jump =>
    cases operand with
    | address target => exact .done (alike.jump _)
    | _ => exact .done alike
  | call =>
    cases operand with
    | address target =>
      rw [perform,perform,alike.counter]
      exact (alike.pushWord _).bind fun _ _ alike => .done (alike.jump _)
    | _ => exact .done alike
  | leave =>
    refine alike.pullWord.bind ?_
    rintro ⟨target,one⟩ ⟨_,two⟩ ⟨rfl,alike⟩
    exact .done (alike.jump _)
  | leaveInterrupt =>
    refine alike.pullStatus.bind fun _ _ alike => ?_
    refine alike.pullWord.bind ?_
    rintro ⟨target,one⟩ ⟨_,two⟩ ⟨rfl,alike⟩
    exact .done (alike.jump _)
  | enterBreak =>
    apply alike.enterBreak
    intro interrupting
    rw [interrupting] at blind
    exact blind
  | pushAccumulator =>
    rw [perform,perform,alike.accumulator]
    exact alike.push _
  | pullAccumulator =>
    refine alike.pull.bind ?_
    rintro ⟨value,one⟩ ⟨_,two⟩ ⟨rfl,alike⟩
    exact .done (alike.load _ _)
  | pushStatus => exact alike.pushStatus blind
  | pullStatus => exact alike.pullStatus
  | idle => exact .done alike

end Console6502
