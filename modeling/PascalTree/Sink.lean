import PascalTree.Render

/-! # Sinks

A sink is offered bytes and answers each offer: it takes some of them, is interrupted, or fails.
Delivering a text offers what is left of it again and again, until nothing is left or the sink
gives up, and flushes the sink when everything was taken.
-/
namespace PascalTree
set_option autoImplicit false

inductive SinkError
  | brokenPipe (message : String)
  /-- The sink took none of the bytes it was offered. -/
  | writeZero
  | other (message : String)
  deriving DecidableEq

def SinkError.message : SinkError → String
  | brokenPipe message => message
  | writeZero => "failed to write whole buffer"
  | other message => message

inductive Reply
  | took (count : Nat)
  | interrupted
  | failed (error : SinkError)
  deriving DecidableEq

/-- A sink with states in `σ`. It never takes more than it is offered, and is interrupted only so
often in a row as its patience says. -/
structure Sink (σ : Type) where
  write : List UInt8 → σ → Reply × σ
  flush : σ → Option SinkError × σ
  patience : List UInt8 → σ → Nat
  took_le : ∀ {bytes state count next},
    write bytes state = (.took count, next) → count ≤ bytes.length
  patience_lt : ∀ {bytes state next},
    write bytes state = (.interrupted, next) → patience bytes next < patience bytes state

/-- How far a delivery came. The chunks that were taken are kept latest first. -/
structure Delivery (σ : Type) where
  chunks : List (List UInt8)
  error : Option SinkError
  flushes : Nat
  state : σ

namespace Delivery

def start {σ : Type} (state : σ) : Delivery σ := ⟨[], none, 0, state⟩

def taken {σ : Type} (delivery : Delivery σ) : List UInt8 := delivery.chunks.reverse.flatten

end Delivery

namespace Sink

variable {σ : Type}

/-- Offers what is left until nothing is left. Interruptions are retried, and taking none of the
bytes counts as a failure. -/
def writeAll (sink : Sink σ) (bytes : List UInt8) (delivery : Delivery σ) : Delivery σ :=
  if bytes = [] then delivery
  else
    match hWrite : sink.write bytes delivery.state with
    | (.interrupted, next) => sink.writeAll bytes { delivery with state := next }
    | (.failed error, next) => { delivery with error := some error, state := next }
    | (.took 0, next) => { delivery with error := some .writeZero, state := next }
    | (.took (count + 1), next) =>
      sink.writeAll (bytes.drop (count + 1))
        { delivery with chunks := bytes.take (count + 1) :: delivery.chunks, state := next }
termination_by (bytes.length, sink.patience bytes delivery.state)
decreasing_by
  · exact Prod.Lex.right _ (sink.patience_lt hWrite)
  · have hBytes := List.length_pos_iff.mpr ‹bytes ≠ []›
    refine Prod.Lex.left _ _ ?_
    simp only [List.length_drop]
    omega

/-- Writes all bytes and then flushes. After a failure there is no flush. -/
def deliver (sink : Sink σ) (bytes : List UInt8) (state : σ) : Delivery σ :=
  let written := sink.writeAll bytes (.start state)
  match written.error with
  | some _ => written
  | none =>
    let flushed := sink.flush written.state
    { written with error := flushed.1, flushes := written.flushes + 1, state := flushed.2 }

def deliverText (sink : Sink σ) (state : σ) (output : String) : Delivery σ :=
  sink.deliver output.toUTF8.data.toList state

end Sink

def renderTo {σ : Type} (sink : Sink σ) (state : σ) (style : Style) (tree : Option Node) :
    Except Fault (Delivery σ) :=
  (render style tree).map (sink.deliverText state)

/-- A sink that takes at most `chunk` bytes of an offer. When it has no room left it fails with
`whenFull`, or takes nothing if that is `none`. -/
structure Quota where
  chunk : Option Nat := none
  whenFull : Option String := some "sink is full"
  flushFails : Bool := false
  deriving DecidableEq

namespace Quota

/-- The interruptions still to come, and the bytes there is room for. -/
structure State where
  interrupts : Nat := 0
  room : Option Nat := none
  deriving DecidableEq

/-- The start of the bytes, up to a bound if there is one. -/
def cut (bound : Option Nat) (bytes : List UInt8) : List UInt8 :=
  match bound with
  | none => bytes
  | some count => bytes.take count

theorem length_cut_le (bound : Option Nat) (bytes : List UInt8) :
    (cut bound bytes).length ≤ bytes.length := by
  cases bound with
  | none => exact Nat.le_refl _
  | some count => exact List.length_take_le' count bytes

def write (quota : Quota) (bytes : List UInt8) (state : State) : Reply × State :=
  if state.interrupts = 0 then
    if state.room = some 0 then
      (match quota.whenFull with
        | some message => .failed (.brokenPipe message)
        | none => .took 0, state)
    else
      let count := (cut quota.chunk (cut state.room bytes)).length
      (.took count, { state with room := state.room.map (· - count) })
  else (.interrupted, { state with interrupts := state.interrupts - 1 })

def flush (quota : Quota) (state : State) : Option SinkError × State :=
  (if quota.flushFails then some (.other "flush failed") else none, state)

def sink (quota : Quota) : Sink State where
  write := quota.write
  flush := quota.flush
  patience _ state := state.interrupts
  took_le {bytes state count next} h := by
    unfold write at h
    split at h
    · split at h
      · split at h <;> simp at h
        omega
      · have hCount := congrArg Prod.fst h
        simp only [Reply.took.injEq] at hCount
        rw [← hCount]
        exact Nat.le_trans (length_cut_le _ _) (length_cut_le _ _)
    · cases h
  patience_lt {bytes state next} h := by
    unfold write at h
    split at h
    · split at h
      · split at h <;> simp at h
      · simp at h
    · cases h
      exact Nat.sub_one_lt ‹_›

end Quota
end PascalTree
