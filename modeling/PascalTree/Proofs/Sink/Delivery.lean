import PascalTree.Sink
import PascalTree.Node.Build

/-! # What reaches a sink

A sink can be made to keep a log of everything it is asked and answers. The log shows what a
delivery does: it offers what is left, so that a prefix of the text is taken; it ends at the first
answer that is a failure, which becomes its result; and it flushes once if the whole text was taken
and never otherwise. How a sink cuts its offers and how often it is interrupted shows in the log
only.
-/
namespace PascalTree
set_option autoImplicit false

/-- A request to a sink, with its answer. -/
inductive Exchange
  | offered (bytes : List UInt8) (reply : Reply)
  | flushed (error : Option SinkError)
  deriving DecidableEq

namespace Exchange

def taken : Exchange → List UInt8
  | offered bytes (.took count) => bytes.take count
  | _ => []

/-- An interruption is no failure, but taking nothing is one. -/
def failure : Exchange → Option SinkError
  | offered _ (.failed error) => some error
  | offered _ (.took 0) => some .writeZero
  | offered _ _ => none
  | flushed error => error

def isFlush : Exchange → Bool
  | offered .. => false
  | flushed _ => true

end Exchange

namespace Sink

variable {σ : Type}

/-- The sink with a log of its exchanges in the state. -/
def logged (sink : Sink σ) : Sink (σ × List Exchange) where
  write bytes state :=
    let (reply, next) := sink.write bytes state.1
    (reply, next, state.2 ++ [.offered bytes reply])
  flush state :=
    let (error, next) := sink.flush state.1
    (error, next, state.2 ++ [.flushed error])
  patience bytes state := sink.patience bytes state.1
  took_le h := sink.took_le (Prod.ext (Prod.mk.inj h).1 rfl)
  patience_lt {bytes state next} h := by
    obtain ⟨hReply, rfl⟩ := Prod.mk.inj h
    exact sink.patience_lt (Prod.ext hReply rfl)

theorem write_of_logged {sink : Sink σ} {bytes : List UInt8} {state next : σ × List Exchange}
    {reply : Reply} (h : sink.logged.write bytes state = (reply, next)) :
    sink.write bytes state.1 = (reply, next.1) ∧ next.2 = state.2 ++ [.offered bytes reply] := by
  obtain ⟨rfl, rfl⟩ := Prod.mk.inj h
  exact ⟨rfl, rfl⟩

end Sink

/-- The delivery without the log. -/
def Delivery.unlogged {σ : Type} (delivery : Delivery (σ × List Exchange)) : Delivery σ :=
  ⟨delivery.chunks, delivery.error, delivery.flushes, delivery.state.1⟩

namespace Sink

variable {σ : Type}

section
variable {sink : Sink σ} {bytes : List UInt8} {next : σ} (delivery : Delivery σ)

theorem writeAll_nil : sink.writeAll [] delivery = delivery := by
  rw [writeAll, if_pos rfl]

theorem writeAll_of_interrupted (hBytes : bytes ≠ [])
    (hWrite : sink.write bytes delivery.state = (.interrupted, next)) :
    sink.writeAll bytes delivery = sink.writeAll bytes { delivery with state := next } := by
  rw [writeAll, if_neg hBytes]
  split <;> simp_all

theorem writeAll_of_failed {error : SinkError} (hBytes : bytes ≠ [])
    (hWrite : sink.write bytes delivery.state = (.failed error, next)) :
    sink.writeAll bytes delivery = { delivery with error := some error, state := next } := by
  rw [writeAll, if_neg hBytes]
  split <;> simp_all

theorem writeAll_of_took_zero (hBytes : bytes ≠ [])
    (hWrite : sink.write bytes delivery.state = (.took 0, next)) :
    sink.writeAll bytes delivery = { delivery with error := some .writeZero, state := next } := by
  rw [writeAll, if_neg hBytes]
  split <;> simp_all

theorem writeAll_of_took {count : Nat} (hBytes : bytes ≠ [])
    (hWrite : sink.write bytes delivery.state = (.took (count + 1), next)) :
    sink.writeAll bytes delivery = sink.writeAll (bytes.drop (count + 1))
      { delivery with chunks := bytes.take (count + 1) :: delivery.chunks, state := next } := by
  rw [writeAll, if_neg hBytes]
  split <;> simp_all

end

theorem unlogged_writeAll (sink : Sink σ) (bytes : List UInt8)
    (delivery : Delivery (σ × List Exchange)) :
    (sink.logged.writeAll bytes delivery).unlogged = sink.writeAll bytes delivery.unlogged := by
  fun_induction sink.logged.writeAll bytes delivery with
  | case1 delivery => exact (writeAll_nil delivery.unlogged).symm
  | case2 bytes delivery hBytes next hWrite ih =>
    rw [ih]
    exact (writeAll_of_interrupted delivery.unlogged hBytes (write_of_logged hWrite).1).symm
  | case3 bytes delivery hBytes error next hWrite =>
    exact (writeAll_of_failed delivery.unlogged hBytes (write_of_logged hWrite).1).symm
  | case4 bytes delivery hBytes next hWrite =>
    exact (writeAll_of_took_zero delivery.unlogged hBytes (write_of_logged hWrite).1).symm
  | case5 bytes delivery hBytes count next hWrite ih =>
    rw [ih]
    exact (writeAll_of_took delivery.unlogged hBytes (write_of_logged hWrite).1).symm

/-- What the write loop does from a delivery without error: `exchanges` are added to the log, and
`rest` is left over. -/
structure Writes (bytes : List UInt8) (before after : Delivery (σ × List Exchange))
    (exchanges : List Exchange) (rest : List UInt8) : Prop where
  log : after.state.2 = before.state.2 ++ exchanges
  taken : after.taken = before.taken ++ exchanges.flatMap Exchange.taken
  taken_append_rest : exchanges.flatMap Exchange.taken ++ rest = bytes
  error : after.error = exchanges.findSome? Exchange.failure
  error_iff : after.error = none ↔ rest = []
  flushes : after.flushes = before.flushes
  isFlush : ∀ exchange ∈ exchanges, ¬ exchange.isFlush

/-- One exchange that takes no failure, in front of the others. -/
theorem Writes.cons {bytes rest : List UInt8} {before middle after : Delivery (σ × List Exchange)}
    {exchanges : List Exchange} {reply : Reply} {offer : List UInt8}
    (h : Writes bytes middle after exchanges rest)
    (hLog : middle.state.2 = before.state.2 ++ [.offered offer reply])
    (hTaken : middle.taken = before.taken ++ Exchange.taken (.offered offer reply))
    (hFailure : Exchange.failure (.offered offer reply) = none)
    (hFlushes : middle.flushes = before.flushes) :
    Writes (Exchange.taken (.offered offer reply) ++ bytes) before after
      (.offered offer reply :: exchanges) rest where
  log := by rw [h.log, hLog, List.append_assoc, List.singleton_append]
  taken := by rw [h.taken, hTaken, List.flatMap_cons, List.append_assoc]
  taken_append_rest := by rw [List.flatMap_cons, List.append_assoc, h.taken_append_rest]
  error := by rw [h.error, List.findSome?_cons, hFailure]
  error_iff := h.error_iff
  flushes := h.flushes.trans hFlushes
  isFlush := List.forall_mem_cons.mpr ⟨nofun, h.isFlush⟩

theorem exists_writes (sink : Sink σ) (bytes : List UInt8)
    (delivery : Delivery (σ × List Exchange)) (hError : delivery.error = none) :
    ∃ exchanges rest,
      Writes bytes delivery (sink.logged.writeAll bytes delivery) exchanges rest := by
  fun_induction sink.logged.writeAll bytes delivery with
  | case1 delivery =>
    exact ⟨[], [], by simp, by simp, rfl, by simpa using hError, by simpa using hError, rfl, nofun⟩
  | case2 bytes delivery hBytes next hWrite ih =>
    obtain ⟨exchanges, rest, h⟩ := ih hError
    exact ⟨_, rest, h.cons (write_of_logged hWrite).2 (List.append_nil _).symm rfl rfl⟩
  | case3 bytes delivery hBytes error next hWrite =>
    refine ⟨[.offered bytes (.failed error)], bytes, (write_of_logged hWrite).2, ?_, rfl, rfl, ?_,
      rfl, by simp [Exchange.isFlush]⟩
    · exact (List.append_nil _).symm
    · simpa using hBytes
  | case4 bytes delivery hBytes next hWrite =>
    refine ⟨[.offered bytes (.took 0)], bytes, (write_of_logged hWrite).2, ?_, rfl, rfl, ?_,
      rfl, by simp [Exchange.isFlush]⟩
    · exact (List.append_nil _).symm
    · simpa using hBytes
  | case5 bytes delivery hBytes count next hWrite ih =>
    obtain ⟨exchanges, rest, h⟩ := ih hError
    have hTaken : Delivery.taken { delivery with
        chunks := bytes.take (count + 1) :: delivery.chunks, state := next } =
          delivery.taken ++ bytes.take (count + 1) := by
      simp [Delivery.taken]
    have hCons := h.cons (write_of_logged hWrite).2 hTaken rfl rfl
    have hSplit : bytes.take (count + 1) ++ bytes.drop (count + 1) = bytes :=
      List.take_append_drop _ _
    rw [Exchange.taken, hSplit] at hCons
    exact ⟨_, rest, hCons⟩

theorem deliver_of_error (sink : Sink σ) {bytes : List UInt8} {state : σ} {error : SinkError}
    (h : (sink.writeAll bytes (.start state)).error = some error) :
    sink.deliver bytes state = sink.writeAll bytes (.start state) := by
  rw [deliver, h]

/-- What is left of a delivery is to flush. -/
def flushed (sink : Sink σ) (written : Delivery σ) : Delivery σ :=
  { written with
    error := (sink.flush written.state).1
    flushes := written.flushes + 1
    state := (sink.flush written.state).2 }

theorem deliver_of_none (sink : Sink σ) {bytes : List UInt8} {state : σ}
    (h : (sink.writeAll bytes (.start state)).error = none) :
    sink.deliver bytes state = sink.flushed (sink.writeAll bytes (.start state)) := by
  rw [deliver, h]
  rfl

theorem unlogged_deliver (sink : Sink σ) (bytes : List UInt8) (state : σ) :
    (sink.logged.deliver bytes (state, [])).unlogged = sink.deliver bytes state := by
  have hWritten := sink.unlogged_writeAll bytes (.start (state, []))
  cases hError : (sink.logged.writeAll bytes (.start (state, []))).error with
  | some error =>
    have hPlain : (sink.writeAll bytes (.start state)).error = some error :=
      (congrArg Delivery.error hWritten).symm.trans hError
    rw [deliver_of_error _ hError, deliver_of_error _ hPlain]
    exact hWritten
  | none =>
    have hPlain : (sink.writeAll bytes (.start state)).error = none :=
      (congrArg Delivery.error hWritten).symm.trans hError
    rw [deliver_of_none _ hError, deliver_of_none _ hPlain]
    exact congrArg sink.flushed hWritten

/-- What a delivery and its exchanges have to do with the bytes that were to be delivered. -/
structure Delivered (bytes : List UInt8) (delivery : Delivery σ) (exchanges : List Exchange) :
    Prop where
  taken : delivery.taken = exchanges.flatMap Exchange.taken
  taken_start : delivery.taken <+: bytes
  error : delivery.error = exchanges.findSome? Exchange.failure
  error_iff : delivery.error = none ↔ delivery.taken = bytes ∧ .flushed none ∈ exchanges
  flushes : delivery.flushes = exchanges.countP Exchange.isFlush
  flushes_eq : delivery.flushes = if delivery.taken = bytes then 1 else 0

namespace Writes

variable {bytes rest : List UInt8} {state : σ} {written : Delivery (σ × List Exchange)}
  {exchanges : List Exchange}

theorem taken_eq_iff (h : Writes bytes (.start (state, [])) written exchanges rest) :
    written.taken = bytes ↔ written.error = none := by
  rw [h.error_iff, ← h.taken_append_rest, h.taken]
  exact List.self_eq_append_right

theorem taken_start (h : Writes bytes (.start (state, [])) written exchanges rest) :
    written.taken <+: bytes := by
  rw [h.taken]
  exact ⟨rest, h.taken_append_rest⟩

theorem countP_isFlush (h : Writes bytes (.start (state, [])) written exchanges rest) :
    exchanges.countP Exchange.isFlush = 0 :=
  List.countP_eq_zero.mpr h.isFlush

theorem delivered_of_error {error : SinkError}
    (h : Writes bytes (.start (state, [])) written exchanges rest)
    (hError : written.error = some error) : Delivered bytes written.unlogged exchanges := by
  have hLeft : written.taken ≠ bytes := by
    rw [ne_eq, h.taken_eq_iff, hError]
    nofun
  constructor
  · exact h.taken
  · exact h.taken_start
  · exact h.error
  · constructor
    · intro hNone
      exact absurd (h.taken_eq_iff.mpr hNone) hLeft
    · rintro ⟨hAll, -⟩
      exact absurd hAll hLeft
  · exact h.flushes.trans h.countP_isFlush.symm
  · exact h.flushes.trans (if_neg hLeft).symm

theorem delivered_of_none (sink : Sink σ)
    (h : Writes bytes (.start (state, [])) written exchanges rest)
    (hError : written.error = none) :
    Delivered bytes (sink.flushed written.unlogged)
      (exchanges ++ [.flushed (sink.flush written.state.1).1]) := by
  have hAll := h.taken_eq_iff.mpr hError
  have hNoFailure : exchanges.findSome? Exchange.failure = none := h.error.symm.trans hError
  constructor
  · rw [List.flatMap_append]
    exact h.taken.trans (List.append_nil _).symm
  · exact h.taken_start
  · rw [List.findSome?_append, hNoFailure, Option.none_or, List.findSome?_singleton]
    rfl
  · constructor
    · intro hNone
      have hFlush : (sink.flush written.state.1).1 = none := hNone
      exact ⟨hAll, by rw [hFlush]; exact List.mem_append_right _ List.mem_cons_self⟩
    · rintro ⟨-, hFlush⟩
      rcases List.mem_append.mp hFlush with hMem | hMem
      · exact absurd rfl (h.isFlush _ hMem)
      · injection List.mem_singleton.mp hMem with hNone
        exact hNone.symm
  · rw [List.countP_append, h.countP_isFlush]
    exact congrArg (· + 1) h.flushes
  · exact (congrArg (· + 1) h.flushes).trans (if_pos hAll).symm

end Writes

theorem delivered_deliver (sink : Sink σ) (bytes : List UInt8) (state : σ) :
    Delivered bytes (sink.deliver bytes state)
      (sink.logged.deliver bytes (state, [])).state.2 := by
  obtain ⟨exchanges, rest, h⟩ := sink.exists_writes bytes (.start (state, [])) rfl
  rw [← unlogged_deliver]
  cases hError : (sink.logged.writeAll bytes (.start (state, []))).error with
  | some error =>
    rw [deliver_of_error _ hError, h.log]
    exact h.delivered_of_error hError
  | none =>
    have hDelivered := h.delivered_of_none sink hError
    have hLog : (sink.logged.writeAll bytes (.start (state, []))).state.2 = exchanges := h.log
    rw [deliver_of_none _ hError]
    rw [← hLog] at hDelivered
    exact hDelivered

/-- The sink takes at least one byte of an offer while it has room, and no more than it has room
for. It fails with `full` when there is no room left, and flushing it gives `flushing`. -/
structure Limited (sink : Sink σ) (room : σ → Option Nat) (full : SinkError)
    (flushing : Option SinkError) : Prop where
  took : ∀ {bytes state count next}, bytes ≠ [] →
    sink.write bytes state = (.took (count + 1), next) →
      count + 1 ≤ (Quota.cut (room state) bytes).length ∧
        room next = (room state).map (· - (count + 1))
  took_zero : ∀ {bytes state next}, bytes ≠ [] → sink.write bytes state = (.took 0, next) →
    room state = some 0 ∧ full = .writeZero
  interrupted : ∀ {bytes state next}, bytes ≠ [] →
    sink.write bytes state = (.interrupted, next) → room next = room state
  failed : ∀ {bytes state error next}, bytes ≠ [] →
    sink.write bytes state = (.failed error, next) → room state = some 0 ∧ full = error
  flush : ∀ state, (sink.flush state).1 = flushing

end Sink

namespace Quota

theorem cut_nil (bound : Option Nat) : cut bound [] = [] := by
  cases bound with
  | none => rfl
  | some count => exact List.take_nil

/-- What is taken of an offer in two goes. -/
theorem cut_eq_append {bound : Option Nat} {bytes : List UInt8} {count : Nat}
    (h : count ≤ (cut bound bytes).length) :
    cut bound bytes = bytes.take count ++ cut (bound.map (· - count)) (bytes.drop count) := by
  cases bound with
  | none => exact (List.take_append_drop count bytes).symm
  | some limit =>
    have hCount : count ≤ limit := Nat.le_trans h (List.length_take_le limit bytes)
    have hTake : cut (some limit) bytes = bytes.take (count + (limit - count)) := by
      rw [Nat.add_sub_cancel' hCount]
      rfl
    rw [hTake, List.take_add]
    rfl

theorem cut_eq_self_iff {bound : Option Nat} {bytes : List UInt8} {count : Nat}
    (h : count ≤ (cut bound bytes).length) :
    cut bound bytes = bytes ↔
      cut (bound.map (· - count)) (bytes.drop count) = bytes.drop count := by
  have hSplit := List.take_append_drop count bytes
  rw [cut_eq_append h]
  constructor
  · intro hSame
    exact List.append_cancel_left (hSame.trans hSplit.symm)
  · intro hRest
    rw [hRest, hSplit]

end Quota

namespace Sink

variable {σ : Type} {sink : Sink σ} {room : σ → Option Nat} {full : SinkError}
  {flushing : Option SinkError}

theorem Limited.writeAll (h : sink.Limited room full flushing) (bytes : List UInt8)
    (delivery : Delivery σ) (hError : delivery.error = none) :
    (sink.writeAll bytes delivery).taken =
        delivery.taken ++ Quota.cut (room delivery.state) bytes ∧
      (sink.writeAll bytes delivery).error =
        if Quota.cut (room delivery.state) bytes = bytes then none else some full := by
  fun_induction sink.writeAll bytes delivery with
  | case1 delivery => simp [Quota.cut_nil, hError]
  | case2 bytes delivery hBytes next hWrite ih =>
    rw [← h.interrupted hBytes hWrite]
    exact ih hError
  | case3 bytes delivery hBytes error next hWrite =>
    obtain ⟨hRoom, rfl⟩ := h.failed hBytes hWrite
    simp [hRoom, Quota.cut, Ne.symm hBytes, Delivery.taken]
  | case4 bytes delivery hBytes next hWrite =>
    obtain ⟨hRoom, rfl⟩ := h.took_zero hBytes hWrite
    simp [hRoom, Quota.cut, Ne.symm hBytes, Delivery.taken]
  | case5 bytes delivery hBytes count next hWrite ih =>
    obtain ⟨hCount, hRoom⟩ := h.took hBytes hWrite
    obtain ⟨hTaken, hResult⟩ := ih hError
    constructor
    · rw [hTaken, Quota.cut_eq_append hCount, hRoom]
      simp [Delivery.taken]
    · simp only [hResult, Quota.cut_eq_self_iff hCount, hRoom]

theorem Limited.deliver (h : sink.Limited room full flushing) (bytes : List UInt8) (state : σ) :
    (sink.deliver bytes state).taken = Quota.cut (room state) bytes ∧
      (sink.deliver bytes state).error =
        if (sink.deliver bytes state).taken = bytes then flushing else some full := by
  have hWritten := h.writeAll bytes (.start state) rfl
  have hTaken : (sink.writeAll bytes (.start state)).taken = Quota.cut (room state) bytes :=
    hWritten.1
  have hResult : (sink.writeAll bytes (.start state)).error =
      if Quota.cut (room state) bytes = bytes then none else some full := hWritten.2
  by_cases hWhole : Quota.cut (room state) bytes = bytes
  · rw [if_pos hWhole] at hResult
    have hAll : (sink.flushed (sink.writeAll bytes (.start state))).taken = bytes :=
      hTaken.trans hWhole
    rw [deliver_of_none _ hResult, if_pos hAll, hAll]
    exact ⟨hWhole.symm, h.flush _⟩
  · rw [if_neg hWhole] at hResult
    rw [deliver_of_error _ hResult, hTaken, if_neg hWhole]
    exact ⟨rfl, hResult⟩

end Sink

namespace Quota

/-- What the sink fails with when there is no room left. -/
def fullError (quota : Quota) : SinkError :=
  match quota.whenFull with
  | some message => .brokenPipe message
  | none => .writeZero

theorem length_cut_pos {bound : Option Nat} {bytes : List UInt8} (hBound : bound ≠ some 0)
    (hBytes : bytes ≠ []) : 0 < (cut bound bytes).length := by
  have hLength := List.length_pos_iff.mpr hBytes
  cases bound with
  | none => exact hLength
  | some count =>
    have hCount : count ≠ 0 := fun h => hBound (congrArg some h)
    rw [cut, List.length_take]
    omega

theorem write_cases {quota : Quota} {bytes : List UInt8} {state next : State} {reply : Reply}
    (h : quota.write bytes state = (reply, next)) :
    (reply = .interrupted ∧ next.room = state.room) ∨
      (state.room = some 0 ∧
        Exchange.failure (.offered bytes reply) = some quota.fullError) ∨
      (state.room ≠ some 0 ∧ reply = .took (cut quota.chunk (cut state.room bytes)).length ∧
        next.room = state.room.map (· - (cut quota.chunk (cut state.room bytes)).length)) := by
  rw [write] at h
  split at h
  · split at h
    · rename_i hRoom
      obtain ⟨rfl, rfl⟩ := Prod.mk.inj h
      refine .inr (.inl ⟨hRoom, ?_⟩)
      rw [fullError]
      cases quota.whenFull <;> rfl
    · rename_i hRoom
      obtain ⟨rfl, rfl⟩ := Prod.mk.inj h
      exact .inr (.inr ⟨hRoom, rfl, rfl⟩)
  · obtain ⟨rfl, rfl⟩ := Prod.mk.inj h
    exact .inl ⟨rfl, rfl⟩

/-- Such a sink is limited by its room, whatever the size of its chunks is. -/
theorem limited_sink (quota : Quota) (hChunk : quota.chunk ≠ some 0) :
    quota.sink.Limited State.room quota.fullError
      (if quota.flushFails then some (.other "flush failed") else none) where
  took {bytes state count next} hBytes h := by
    rcases write_cases h with ⟨hReply, -⟩ | ⟨-, hFailure⟩ | ⟨-, hReply, hNext⟩
    · cases hReply
    · cases hFailure
    · rw [hNext, Reply.took.inj hReply]
      exact ⟨length_cut_le _ _, rfl⟩
  took_zero {bytes state next} hBytes h := by
    rcases write_cases h with ⟨hReply, -⟩ | ⟨hRoom, hFailure⟩ | ⟨hRoom, hReply, -⟩
    · cases hReply
    · exact ⟨hRoom, (Option.some.inj hFailure).symm⟩
    · have hCount := length_cut_pos hChunk (List.length_pos_iff.mp (length_cut_pos hRoom hBytes))
      rw [← Reply.took.inj hReply] at hCount
      exact absurd hCount (Nat.lt_irrefl 0)
  interrupted {bytes state next} hBytes h := by
    rcases write_cases h with ⟨-, hNext⟩ | ⟨-, hFailure⟩ | ⟨-, hReply, -⟩
    · exact hNext
    · cases hFailure
    · cases hReply
  failed {bytes state error next} hBytes h := by
    rcases write_cases h with ⟨hReply, -⟩ | ⟨hRoom, hFailure⟩ | ⟨-, hReply, -⟩
    · cases hReply
    · exact ⟨hRoom, (Option.some.inj hFailure).symm⟩
    · cases hReply
  flush _ := rfl

end Quota

/-- Rendering to a sink gives a delivery whose bytes are a start of the text and whose result is the
first failure that the sink answers; it succeeds when all of the text was taken and flushed, and it
flushes once or never. A sink with limited room takes what there is room for, whatever its chunks
and interruptions are. -/
theorem renderTo_delivered {σ : Type} (sink : Sink σ) (state : σ) {style : Style}
    {tree : Option Node} {source : String} (hSource : render style tree = .ok source) :
    ∃ (delivery : Delivery σ) (logged : Delivery (σ × List Exchange)),
      renderTo sink state style tree = .ok delivery ∧
      renderTo sink.logged (state, []) style tree = .ok logged ∧ logged.unlogged = delivery ∧
      Sink.Delivered source.toUTF8.data.toList delivery logged.state.2 ∧
      ∀ (room : σ → Option Nat) (full : SinkError) (flushing : Option SinkError),
        sink.Limited room full flushing →
          delivery.taken = Quota.cut (room state) source.toUTF8.data.toList ∧
          delivery.error =
            if delivery.taken = source.toUTF8.data.toList then flushing else some full := by
  have hDelivered := sink.delivered_deliver source.toUTF8.data.toList state
  refine ⟨sink.deliverText state source, sink.logged.deliverText (state, []) source, ?_, ?_,
    sink.unlogged_deliver _ state, hDelivered, ?_⟩
  · rw [renderTo, hSource]
    rfl
  · rw [renderTo, hSource]
    rfl
  · intro room full flushing hLimited
    exact hLimited.deliver source.toUTF8.data.toList state

/-- Two bytes at a time, after an interruption, and no room for the fourth. -/
theorem renderTo_delivered_cut :
    render {} (some (Build.boolean true)) = .ok "true" ∧
    ∃ delivery : Delivery Quota.State,
      renderTo (Quota.sink { chunk := some 2 }) { interrupts := 1, room := some 3 } {}
        (some (Build.boolean true)) = .ok delivery ∧
      delivery.taken = [116, 114, 117] ∧ delivery.error = some (.brokenPipe "sink is full") ∧
      delivery.flushes = 0 := by
  have hSource : render {} (some (Build.boolean true)) = .ok "true" := rfl
  obtain ⟨delivery, logged, hDelivery, -, -, hDelivered, hLimited⟩ :=
    renderTo_delivered (Quota.sink { chunk := some 2 }) { interrupts := 1, room := some 3 } hSource
  obtain ⟨hTaken, hError⟩ := hLimited _ _ _ (Quota.limited_sink _ (by decide))
  have hCut : delivery.taken = [116, 114, 117] := hTaken.trans (by decide)
  have hFlushes := hDelivered.flushes_eq
  rw [hCut] at hError hFlushes
  exact ⟨hSource, delivery, hDelivery, hCut, hError.trans (by decide), hFlushes.trans (by decide)⟩

end PascalTree
