import Coap.Message

/-! What setting an option does to the other options of a message, and the payloads of several
messages put together. -/
namespace Coap.Message

/-- All options with a given number, in their order. -/
def numbered (m : Message) (number : UInt16) : List MessageOption :=
  m.options.filter fun o => o.number == number

/-- All options but those with the given numbers, in their order. -/
def otherThan (m : Message) (numbers : List UInt16) : List MessageOption :=
  m.options.filter fun o => !numbers.contains o.number

theorem option?_of_numbered {m : Message} {number : UInt16} {o : MessageOption}
    (h : m.numbered number = [o]) : m.option? number = some o := by
  have hhead : m.option? number = (m.numbered number).head? := List.head?_filter.symm
  rw [hhead, h, List.head?_cons]

theorem option?_of_numbered_nil {m : Message} {number : UInt16} (h : m.numbered number = []) :
    m.option? number = none := by
  have hhead : m.option? number = (m.numbered number).head? := List.head?_filter.symm
  rw [hhead, h, List.head?_nil]

theorem numbered_setOption_self (m : Message) (o : MessageOption) :
    (m.setOption o).numbered o.number = [o] := by
  -- Of the old options none with this number is left.
  have hold : ((m.removeOptions o.number).options.filter fun p => p.number == o.number) = [] := by
    apply List.filter_eq_nil_iff.mpr
    intro p hp
    have hne := (List.mem_filter.mp hp).2
    simpa using hne
  unfold numbered setOption addOption
  rw [List.filter_append, hold]
  simp

theorem numbered_removeOptions_ne (m : Message) {removed number : UInt16} (h : removed ≠ number) :
    (m.removeOptions removed).numbered number = m.numbered number := by
  unfold numbered removeOptions
  rw [List.filter_filter]
  apply List.filter_congr
  intro p _
  by_cases hp : p.number = number
  · simp [hp, Ne.symm h]
  · simp [hp]

theorem numbered_addOption_ne (m : Message) {o : MessageOption} {number : UInt16}
    (h : o.number ≠ number) : (m.addOption o).numbered number = m.numbered number := by
  unfold numbered addOption
  rw [List.filter_append]
  simp [h]

theorem numbered_setOption_ne (m : Message) (o : MessageOption) (number : UInt16)
    (h : o.number ≠ number) : (m.setOption o).numbered number = m.numbered number := by
  unfold setOption
  rw [numbered_addOption_ne _ h, numbered_removeOptions_ne m h]

theorem otherThan_setOption (m : Message) (o : MessageOption) (numbers : List UInt16)
    (h : o.number ∈ numbers) : (m.setOption o).otherThan numbers = m.otherThan numbers := by
  unfold otherThan setOption addOption removeOptions
  rw [List.filter_append, List.filter_filter]
  have hnew : [o].filter (fun p => !numbers.contains p.number) = [] := by simp [h]
  rw [hnew, List.append_nil]
  apply List.filter_congr
  intro p _
  by_cases hp : p.number = o.number
  · simp [hp, h]
  · simp [hp]

theorem otherThan_congr {numbers numbers' : List UInt16} (h : ∀ n, n ∈ numbers ↔ n ∈ numbers')
    (m : Message) : m.otherThan numbers = m.otherThan numbers' := by
  unfold otherThan
  apply List.filter_congr
  intro o _
  rw [Bool.eq_iff_iff]
  simp [h]

/-- What is left of the options once others have been left out already. -/
theorem filter_otherThan (m : Message) (numbers : List UInt16) (number : UInt16) :
    ((m.otherThan numbers).filter fun o => o.number != number) = m.otherThan (number :: numbers) := by
  unfold otherThan
  rw [List.filter_filter]
  apply List.filter_congr
  intro o _
  rw [Bool.eq_iff_iff]
  simp

theorem block1Value_of_numbered {m : Message} {v : UInt32}
    (h : m.numbered OptionKind.block1.number = [.block1 v]) : m.block1Value = some v := by
  simp only [block1Value, option?_of_numbered h]

theorem block2Value_of_numbered {m : Message} {v : UInt32}
    (h : m.numbered OptionKind.block2.number = [.block2 v]) : m.block2Value = some v := by
  simp only [block2Value, option?_of_numbered h]

theorem block1Value_of_numbered_nil {m : Message}
    (h : m.numbered OptionKind.block1.number = []) : m.block1Value = none := by
  simp only [block1Value, option?_of_numbered_nil h]

theorem block2Value_of_numbered_nil {m : Message}
    (h : m.numbered OptionKind.block2.number = []) : m.block2Value = none := by
  simp only [block2Value, option?_of_numbered_nil h]

/-- The payloads of messages, one after the other. -/
def joined : List Message → ByteArray
  | [] => ByteArray.empty
  | m :: rest => m.payload ++ joined rest

theorem joined_append (ms ns : List Message) : joined (ms ++ ns) = joined ms ++ joined ns := by
  induction ms with
  | nil => exact ByteArray.empty_append.symm
  | cons m ms ih =>
    rw [List.cons_append, joined, joined, ih, ByteArray.append_assoc]

theorem joined_concat (ms : List Message) (m : Message) :
    joined (ms ++ [m]) = joined ms ++ m.payload := by
  rw [joined_append, joined, joined, ByteArray.append_empty]

end Coap.Message
