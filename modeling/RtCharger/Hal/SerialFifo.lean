import RtCharger.Lib.RingQueue

namespace RtCharger.Hal

open RingQueue

/-!
# The receive buffer of a serial port

What `serial.c` does with `struct rt_serial_rx_fifo` when the port receives by interrupts: the
interrupt stores a character, and gives up the oldest one if the buffer has no room, and a thread
takes one.  The buffer is a queue of at most `bufsz - 1` characters.
-/

/-- `struct rt_serial_rx_fifo`. -/
structure RtSerialRxFifo (α : Type) where
  buffer : Nat → α
  putIndex : Nat
  getIndex : Nat
  isFull : Bool

variable {α : Type}

/-- What `rt_serial_open` makes. -/
def RtSerialRxFifo.open (zero : α) : RtSerialRxFifo α := ⟨fun _ => zero, 0, 0, false⟩

/-- One turn of the loop of `rt_hw_serial_isr` at `RT_SERIAL_EVENT_RX_IND`, and whether
    `_serial_check_buffer_size` is called in it. -/
def RtSerialRxFifo.store (bufsz : Nat) (fifo : RtSerialRxFifo α) (ch : α) :
    RtSerialRxFifo α × Bool :=
  let buffer := Function.update fifo.buffer fifo.putIndex ch
  let putIndex := if bufsz ≤ fifo.putIndex + 1 then 0 else fifo.putIndex + 1
  -- if the next position is the read index, the oldest character is discarded
  if putIndex = fifo.getIndex then
    let getIndex := if bufsz ≤ fifo.getIndex + 1 then 0 else fifo.getIndex + 1
    (⟨buffer, putIndex, getIndex, true⟩, true)
  else (⟨buffer, putIndex, fifo.getIndex, fifo.isFull⟩, false)

/-- `rx_length` in `rt_hw_serial_isr`. -/
def RtSerialRxFifo.rxLength (bufsz : Nat) (fifo : RtSerialRxFifo α) : Nat :=
  if fifo.getIndex ≤ fifo.putIndex then fifo.putIndex - fifo.getIndex
  else bufsz - (fifo.getIndex - fifo.putIndex)

/-- `_serial_int_rx` with `length` 1; `none` if there is no data. -/
def serialIntRx (bufsz : Nat) (fifo : RtSerialRxFifo α) : Option (α × RtSerialRxFifo α) :=
  if fifo.getIndex = fifo.putIndex ∧ fifo.isFull = false then none
  else
    let getIndex := if bufsz ≤ fifo.getIndex + 1 then 0 else fifo.getIndex + 1
    some (fifo.buffer fifo.getIndex, { fifo with getIndex := getIndex, isFull := false })

/-! ### The buffer as a queue -/

/-- The indices are in the buffer, and `is_full` is not set when it is empty. -/
structure RtSerialRxFifo.Valid (bufsz : Nat) (fifo : RtSerialRxFifo α) : Prop where
  one_lt : 1 < bufsz
  get_lt : fifo.getIndex < bufsz
  put_lt : fifo.putIndex < bufsz
  full : fifo.isFull = true → fifo.getIndex ≠ fifo.putIndex

/-- The characters that wait to be read. -/
def RtSerialRxFifo.content (bufsz : Nat) (fifo : RtSerialRxFifo α) : List α :=
  RingQueue.content bufsz fifo.buffer fifo.getIndex fifo.putIndex

variable {bufsz : Nat} {fifo : RtSerialRxFifo α}

theorem valid_open (hbuf : 1 < bufsz) (zero : α) :
    (RtSerialRxFifo.open zero).Valid bufsz ∧ (RtSerialRxFifo.open zero).content bufsz = [] :=
  ⟨⟨hbuf, Nat.zero_lt_of_lt hbuf, Nat.zero_lt_of_lt hbuf, nofun⟩,
    (content_eq_nil_iff (Nat.zero_lt_of_lt hbuf)).mpr rfl⟩

/-- `rx_length` counts the characters that wait. -/
theorem rxLength_eq (fifo : RtSerialRxFifo α) :
    fifo.rxLength bufsz = (fifo.content bufsz).length := by
  rw [RtSerialRxFifo.content, length_content]
  rfl

/-- **A character is stored** behind the others; if there is no room, the oldest one is lost. -/
theorem RtSerialRxFifo.Valid.store (h : fifo.Valid bufsz) (ch : α) :
    (fifo.store bufsz ch).1.Valid bufsz ∧
      (if (fifo.content bufsz).length + 1 < bufsz then
        (fifo.store bufsz ch).2 = false ∧
          (fifo.store bufsz ch).1.content bufsz = fifo.content bufsz ++ [ch]
      else
        (fifo.store bufsz ch).2 = true ∧ (fifo.content bufsz).length + 1 = bufsz ∧
          (fifo.store bufsz ch).1.content bufsz = (fifo.content bufsz).tail ++ [ch]) := by
  have hlt := length_lt h.get_lt h.put_lt
  have hfull := next_eq_iff h.get_lt h.put_lt
  have hpos := Nat.zero_lt_of_lt h.get_lt
  rw [RtSerialRxFifo.content, length_content]
  by_cases hnext : next bufsz fifo.putIndex = fifo.getIndex
  · have hstore : fifo.store bufsz ch = (⟨Function.update fifo.buffer fifo.putIndex ch,
        next bufsz fifo.putIndex, next bufsz fifo.getIndex, true⟩, true) := if_pos hnext
    rw [hstore, if_neg (by have := hfull.mp hnext; omega)]
    refine ⟨⟨h.one_lt, next_lt hpos _, next_lt hpos _, fun _ => ?_⟩, rfl, hfull.mp hnext,
      content_put_full h.get_lt h.put_lt h.one_lt hnext ch⟩
    show next bufsz fifo.getIndex ≠ next bufsz fifo.putIndex
    rw [hnext]
    exact next_ne h.one_lt _
  · have hstore : fifo.store bufsz ch = (⟨Function.update fifo.buffer fifo.putIndex ch,
        next bufsz fifo.putIndex, fifo.getIndex, fifo.isFull⟩, false) := if_neg hnext
    have hroom : length bufsz fifo.getIndex fifo.putIndex + 1 ≠ bufsz := fun heq =>
      hnext (hfull.mpr heq)
    rw [hstore, if_pos (by omega)]
    exact ⟨⟨h.one_lt, h.get_lt, next_lt hpos _, fun _ => Ne.symm hnext⟩, rfl,
      content_put h.get_lt h.put_lt hnext ch⟩

/-- **A character is taken**: the one that was stored first. -/
theorem RtSerialRxFifo.Valid.serialIntRx (h : fifo.Valid bufsz) :
    match Hal.serialIntRx bufsz fifo with
    | none             => fifo.content bufsz = []
    | some (ch, fifo') => fifo'.Valid bufsz ∧ fifo.content bufsz = ch :: fifo'.content bufsz := by
  have hpos := Nat.zero_lt_of_lt h.get_lt
  by_cases hempty : fifo.getIndex = fifo.putIndex
  · have hfull : fifo.isFull = false := by
      cases hf : fifo.isFull with
      | false => rfl
      | true => exact absurd hempty (h.full hf)
    have hnone : Hal.serialIntRx bufsz fifo = none := if_pos ⟨hempty, hfull⟩
    rw [hnone]
    exact (content_eq_nil_iff h.get_lt).mpr hempty
  · have hsome : Hal.serialIntRx bufsz fifo = some (fifo.buffer fifo.getIndex,
        { fifo with getIndex := next bufsz fifo.getIndex, isFull := false }) :=
      if_neg fun hno => hempty hno.1
    rw [hsome]
    exact ⟨⟨h.one_lt, next_lt hpos _, h.put_lt, nofun⟩, content_take h.get_lt h.put_lt hempty⟩

end RtCharger.Hal
