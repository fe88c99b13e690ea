/-
**Proxies that are moved from.**

Every `LogGenProxy` starts one message. A move hands the message on to the new proxy and leaves the
old one alive with a null `ss_ptr`; the destructor of the proxy that holds the message writes it.

* `ProxyOp`, `World.step`: what a program does with its proxies; `none` is a use of a null `ss_ptr`.
* `Ledger`: the messages, which proxy holds which of them, and those whose holder was destroyed.
  `Ledger.world` is the state of the program that it stands for.
* `Ledger.Valid`: every message has one holder or is finished; `valid_step`.
* `world_step`, `world_step_none`: the program runs along with the ledger until it destroys a proxy
  that was moved from, or writes through an enabled one.
* **`oneWritePerMessage_iff`**: each message leads to one call of `writeData` with its text exactly
  when it never does.
-/

import Mathlib.Logic.Function.Basic
import StatLog.Lib.Transition
import StatLog.Logger.Proxy

namespace StatLog.Logger

open ByteMemory OutputStream Transition

/-! ### Programs -/

/-- What a program does with proxies, named by their objects. -/
inductive ProxyOp
  | construct (id theLogger : Nat) (enabled : Bool) (tagName logLevelName : CString)
  | piece (id : Nat) (piece : Piece)
  | moveConstruct (source target : Nat)
  | destroy (id : Nat)

/-- The proxies that are alive, and the calls of `writeData` so far. -/
structure World where
  proxies : Nat → Option LogGenProxy := fun _ => none
  calls : List WriteDataCall := []

/-- One operation; `none` when it uses a null `ss_ptr`. -/
def World.step (world : World) : ProxyOp → Option World
  | .construct id theLogger enabled tagName logLevelName =>
    some { world with
      proxies := Function.update world.proxies id
        (some (.construct theLogger enabled tagName logLevelName)) }
  | .piece id piece => do
    let proxy ← world.proxies id
    let written ← piece.call proxy
    some { world with proxies := Function.update world.proxies id (some written) }
  | .moveConstruct source target => do
    let other ← world.proxies source
    some { world with
      proxies := Function.update (Function.update world.proxies source (some other.moveFrom.2)) target
        (some other.moveFrom.1) }
  | .destroy id => do
    let proxy ← world.proxies id
    let call ← proxy.destroy
    some { proxies := Function.update world.proxies id none, calls := world.calls ++ call.toList }

/-! ### Messages and their holders -/

/-- A message: what its proxy was constructed with, and the pieces written through its holders. -/
structure Message where
  theLogger : Nat
  enabled : Bool
  tagName : CString
  logLevelName : CString
  pieces : List Piece := []

namespace Message

def add (message : Message) (piece : Piece) : Message :=
  { message with pieces := message.pieces ++ [piece] }

/-- **The call a message should lead to**: one with all its text, if it is enabled and has any. -/
def call (message : Message) : Option WriteDataCall :=
  if message.enabled = true ∧ messageText message.pieces ≠ [] then
    some ⟨message.theLogger, messageText message.pieces, message.tagName, message.logLevelName⟩
  else none

/-- The stream of its holder. -/
def stream (message : Message) : OStream :=
  if message.enabled then message.pieces.foldl Piece.apply {} else {}

/-- A proxy of the message, its holder or one it was moved from. -/
def proxy (message : Message) (owns : Bool) : LogGenProxy :=
  ⟨if owns then some message.stream else none, message.theLogger, message.enabled, message.tagName,
    message.logLevelName⟩

theorem destroy_proxy (message : Message) : (message.proxy true).destroy = some message.call := by
  cases enabled : message.enabled with
  | false => simp [LogGenProxy.destroy, proxy, call, stream, enabled]
  | true =>
    have text : message.stream.text = messageText message.pieces := by
      rw [stream, enabled]
      rfl
    by_cases empty : messageText message.pieces = []
    · simp [LogGenProxy.destroy, proxy, call, text, enabled, empty]
    · simp [LogGenProxy.destroy, proxy, call, text, enabled, empty]

theorem call_proxy (message : Message) (piece : Piece) :
    piece.call (message.proxy true) = some ((message.add piece).proxy true) := by
  cases enabled : message.enabled with
  | false =>
    rw [Piece.call_of_disabled enabled]
    simp [proxy, stream, add, enabled]
  | true =>
    have owns : (message.proxy true).ssPtr = some message.stream := rfl
    rw [Piece.call_of_enabled enabled owns]
    simp [proxy, stream, add, enabled]

end Message

/-- What a proxy is for: the number of its message, and whether it still holds it. -/
structure Handle where
  message : Nat
  owns : Bool
  deriving DecidableEq

/-- The messages in the order in which they were started, the proxies alive, and the messages whose
holder was destroyed, in that order. -/
structure Ledger where
  messages : List Message := []
  proxies : Nat → Option Handle := fun _ => none
  finished : List Nat := []

namespace Ledger

/-- The course of the messages. -/
def step (ledger : Ledger) : ProxyOp → Ledger
  | .construct id theLogger enabled tagName logLevelName =>
    { ledger with
      messages := ledger.messages ++ [⟨theLogger, enabled, tagName, logLevelName, []⟩]
      proxies := Function.update ledger.proxies id (some ⟨ledger.messages.length, true⟩) }
  | .piece id piece =>
    match ledger.proxies id with
    | some ⟨message, true⟩ => { ledger with messages := ledger.messages.modify message (·.add piece) }
    | _ => ledger
  | .moveConstruct source target =>
    match ledger.proxies source with
    | some handle =>
      { ledger with
        proxies := Function.update (Function.update ledger.proxies source
          (some { handle with owns := false })) target (some handle) }
    | none => ledger
  | .destroy id =>
    match ledger.proxies id with
    | some ⟨message, true⟩ =>
      { ledger with
        proxies := Function.update ledger.proxies id none
        finished := ledger.finished ++ [message] }
    | _ => { ledger with proxies := Function.update ledger.proxies id none }

/-- What C++ permits: a new object is constructed where none is alive, and only objects that are
alive are used. -/
def Permitted (ledger : Ledger) : ProxyOp → Prop
  | .construct id _ _ _ _ => ledger.proxies id = none
  | .piece id _ => ledger.proxies id ≠ none
  | .moveConstruct source target => ledger.proxies source ≠ none ∧ ledger.proxies target = none
  | .destroy id => ledger.proxies id ≠ none

/-- The operation is not the destruction of a proxy that was moved from, nor a write through an
enabled one. -/
def SparesMovedFrom (ledger : Ledger) : ProxyOp → Prop
  | .piece id _ => ∀ handle message, ledger.proxies id = some handle →
    ledger.messages[handle.message]? = some message → handle.owns = true ∨ message.enabled = false
  | .destroy id => ∀ handle, ledger.proxies id = some handle → handle.owns = true
  | _ => True

/-- A condition on every operation and the ledger before it. -/
def Every (Cond : Ledger → ProxyOp → Prop) : Ledger → List ProxyOp → Prop
  | _, [] => True
  | ledger, op :: ops => Cond ledger op ∧ Every Cond (ledger.step op) ops

/-- The call of the message with the given number. -/
def callOf (messages : List Message) (message : Nat) : Option WriteDataCall :=
  messages[message]?.bind Message.call

/-- **The program the ledger stands for**: the proxies of its messages, and the calls of the
finished ones. -/
def world (ledger : Ledger) : World where
  proxies id := (ledger.proxies id).bind fun handle =>
    ledger.messages[handle.message]?.map (Message.proxy · handle.owns)
  calls := ledger.finished.filterMap (callOf ledger.messages)

/-- A proxy holds the message with the given number. -/
def Holds (ledger : Ledger) (id message : Nat) : Prop := ledger.proxies id = some ⟨message, true⟩

/-- **Every message has one holder or is finished.** -/
structure Valid (ledger : Ledger) : Prop where
  known : ∀ id handle, ledger.proxies id = some handle → handle.message < ledger.messages.length
  unique : ∀ id id' message, ledger.Holds id message → ledger.Holds id' message → id = id'
  nodup : ledger.finished.Nodup
  below : ∀ message ∈ ledger.finished, message < ledger.messages.length
  released : ∀ id message, ledger.Holds id message → message ∉ ledger.finished
  accounted : ∀ message < ledger.messages.length,
    message ∈ ledger.finished ∨ ∃ id, ledger.Holds id message

section Steps

variable {ledger : Ledger}

/-- What an object is after one of them has changed. -/
theorem update_eq_some {Object : Type} {objects : Nat → Option Object} {id id' : Nat}
    {new : Option Object} {object : Object} :
    Function.update objects id new id' = some object ↔
      (id' = id ∧ new = some object) ∨ (id' ≠ id ∧ objects id' = some object) := by
  by_cases here : id' = id
  · subst here
    simp
  · simp [here]

/-- Who holds what after one proxy has changed. -/
theorem holds_update {next : Ledger} {id id' message : Nat} {handle : Option Handle}
    (proxies : next.proxies = Function.update ledger.proxies id handle) :
    next.Holds id' message ↔
      (id' = id ∧ handle = some ⟨message, true⟩) ∨ (id' ≠ id ∧ ledger.Holds id' message) := by
  unfold Holds
  rw [proxies]
  exact update_eq_some

theorem valid_initial : Valid {} where
  known _ _ alive := by cases alive
  unique _ _ _ holds := by cases holds
  nodup := List.nodup_nil
  below _ member := by cases member
  released _ _ holds := by cases holds
  accounted _ below := absurd below (Nat.not_lt_zero _)

/-- A new message, held by its proxy. -/
theorem Valid.construct (valid : ledger.Valid) {id : Nat} (free : ledger.proxies id = none)
    (message : Message) :
    Valid { ledger with
      messages := ledger.messages ++ [message]
      proxies := Function.update ledger.proxies id (some ⟨ledger.messages.length, true⟩) } := by
  have older : ∀ {id' number}, ledger.Holds id' number → number ≠ ledger.messages.length :=
    fun holds => (valid.known _ _ holds).ne
  have grown : (ledger.messages ++ [message]).length = ledger.messages.length + 1 := List.length_append
  refine ⟨fun id' handle alive => ?_, fun first second number one two => ?_, valid.nodup,
    fun number member => ?_, fun id' number holds => ?_, fun number below => ?_⟩
  · show handle.message < (ledger.messages ++ [message]).length
    rw [grown]
    rcases update_eq_some.mp alive with ⟨-, new⟩ | ⟨-, old⟩
    · cases new
      exact Nat.lt_succ_self _
    · exact Nat.lt_succ_of_lt (valid.known _ _ old)
  · rcases (holds_update rfl).mp one with ⟨rfl, new⟩ | ⟨-, oneHolds⟩
    · rcases (holds_update rfl).mp two with ⟨rfl, -⟩ | ⟨-, two⟩
      · rfl
      · cases new
        exact absurd rfl (older two)
    · rcases (holds_update rfl).mp two with ⟨rfl, new⟩ | ⟨-, two⟩
      · cases new
        exact absurd rfl (older oneHolds)
      · exact valid.unique _ _ _ oneHolds two
  · show number < (ledger.messages ++ [message]).length
    rw [grown]
    exact Nat.lt_succ_of_lt (valid.below _ member)
  · rcases (holds_update rfl).mp holds with ⟨rfl, new⟩ | ⟨-, old⟩
    · cases new
      exact fun member => absurd (valid.below _ member) (Nat.lt_irrefl _)
    · exact valid.released _ _ old
  · replace below : number < (ledger.messages ++ [message]).length := below
    rw [grown] at below
    rcases Nat.lt_succ_iff_lt_or_eq.mp below with old | rfl
    · refine (valid.accounted _ old).imp_right ?_
      rintro ⟨holder, holds⟩
      refine ⟨holder, (holds_update rfl).mpr (Or.inr ⟨?_, holds⟩)⟩
      rintro rfl
      rw [Holds, free] at holds
      cases holds
    · exact Or.inr ⟨id, (holds_update rfl).mpr (Or.inl ⟨rfl, rfl⟩)⟩

/-- The proxies behind a move. -/
def moved (ledger : Ledger) (source target : Nat) (handle : Handle) : Ledger :=
  { ledger with
    proxies := Function.update (Function.update ledger.proxies source
      (some { handle with owns := false })) target (some handle) }

/-- A move hands over what the source held. -/
theorem holds_moved {source target id number : Nat} {handle : Handle} :
    (ledger.moved source target handle).Holds id number ↔
      (id = target ∧ handle = ⟨number, true⟩) ∨ (id ≠ target ∧ id ≠ source ∧ ledger.Holds id number) := by
  unfold Holds moved
  rw [update_eq_some, update_eq_some, Option.some.injEq, Option.some.injEq]
  simp

/-- A message moves on to a new proxy, or a proxy without one is moved. -/
theorem Valid.moveConstruct (valid : ledger.Valid) {source target : Nat} {handle : Handle}
    (alive : ledger.proxies source = some handle) (free : ledger.proxies target = none) :
    (ledger.moved source target handle).Valid := by
  refine ⟨fun id other held => ?_, fun first second number one two => ?_, valid.nodup, valid.below,
    fun id number holds => ?_, fun number below => ?_⟩
  · show other.message < ledger.messages.length
    rcases update_eq_some.mp held with ⟨-, new⟩ | ⟨-, held⟩
    · cases new
      exact valid.known _ _ alive
    · rcases update_eq_some.mp held with ⟨-, old⟩ | ⟨-, held⟩
      · cases old
        exact valid.known source handle alive
      · exact valid.known _ _ held
  · have moved : ∀ {id}, handle = ⟨number, true⟩ → id ≠ source → ledger.Holds id number → False := by
      rintro id rfl different holds
      exact different (valid.unique _ _ _ holds alive)
    rcases holds_moved.mp one with ⟨rfl, owns⟩ | ⟨-, apart, oneHolds⟩
    · rcases holds_moved.mp two with ⟨rfl, -⟩ | ⟨-, apart, twoHolds⟩
      · rfl
      · exact absurd twoHolds (moved owns apart)
    · rcases holds_moved.mp two with ⟨rfl, owns⟩ | ⟨-, -, twoHolds⟩
      · exact absurd oneHolds (moved owns apart)
      · exact valid.unique _ _ _ oneHolds twoHolds
  · rcases holds_moved.mp holds with ⟨-, rfl⟩ | ⟨-, -, old⟩
    · exact valid.released _ _ alive
    · exact valid.released _ _ old
  · refine (valid.accounted _ below).imp_right ?_
    rintro ⟨holder, holds⟩
    by_cases old : holder = source
    · rw [old, Holds, alive, Option.some.injEq] at holds
      exact ⟨target, holds_moved.mpr (Or.inl ⟨rfl, holds⟩)⟩
    · refine ⟨holder, holds_moved.mpr (Or.inr ⟨?_, old, holds⟩)⟩
      rintro rfl
      rw [Holds, free] at holds
      cases holds

/-- A message is finished when its holder is destroyed. -/
theorem Valid.finish (valid : ledger.Valid) {id message : Nat} (holds : ledger.Holds id message) :
    Valid { ledger with
      proxies := Function.update ledger.proxies id none
      finished := ledger.finished ++ [message] } := by
  refine ⟨fun id' handle alive => ?_, fun first second number one two => ?_, ?_, ?_,
    fun id' number kept => ?_, fun number below => ?_⟩
  · rcases update_eq_some.mp alive with ⟨-, impossible⟩ | ⟨-, old⟩
    · cases impossible
    · exact valid.known _ _ old
  · rcases (holds_update rfl).mp one with ⟨-, impossible⟩ | ⟨-, one⟩
    · cases impossible
    · rcases (holds_update rfl).mp two with ⟨-, impossible⟩ | ⟨-, two⟩
      · cases impossible
      · exact valid.unique _ _ _ one two
  · rw [List.nodup_append]
    refine ⟨valid.nodup, List.pairwise_singleton _ _, fun first member second last => ?_⟩
    rw [List.mem_singleton] at last
    rintro rfl
    rw [last] at member
    exact valid.released _ _ holds member
  · rw [List.forall_mem_append, List.forall_mem_singleton]
    exact ⟨valid.below, valid.known _ _ holds⟩
  · rcases (holds_update rfl).mp kept with ⟨-, impossible⟩ | ⟨different, old⟩
    · cases impossible
    · show number ∉ ledger.finished ++ [message]
      rw [List.mem_append, List.mem_singleton, not_or]
      refine ⟨valid.released _ _ old, ?_⟩
      rintro rfl
      exact different (valid.unique _ _ _ old holds)
  · show number ∈ ledger.finished ++ [message] ∨ _
    rw [List.mem_append, List.mem_singleton]
    by_cases this : number = message
    · exact Or.inl (Or.inr this)
    · rcases valid.accounted _ below with done | ⟨holder, kept⟩
      · exact Or.inl (Or.inl done)
      · refine Or.inr ⟨holder, (holds_update rfl).mpr (Or.inr ⟨?_, kept⟩)⟩
        rintro rfl
        rw [Holds, holds, Option.some.injEq, Handle.mk.injEq] at kept
        exact this kept.1.symm

/-- Nothing changes hands. -/
theorem Valid.of_holds_iff (valid : ledger.Valid) {next : Ledger}
    (known : ∀ id handle, next.proxies id = some handle → ledger.proxies id = some handle)
    (holds : ∀ id message, next.Holds id message ↔ ledger.Holds id message)
    (length : next.messages.length = ledger.messages.length) (finished : next.finished = ledger.finished) :
    next.Valid where
  known id handle alive := by
    rw [length]
    exact valid.known id handle (known id handle alive)
  unique id id' message one two :=
    valid.unique id id' message ((holds id message).mp one) ((holds id' message).mp two)
  nodup := by
    rw [finished]
    exact valid.nodup
  below message member := by
    rw [finished] at member
    rw [length]
    exact valid.below message member
  released id message kept := by
    rw [finished]
    exact valid.released id message ((holds id message).mp kept)
  accounted message below := by
    rw [length] at below
    rw [finished]
    exact (valid.accounted message below).imp_right fun ⟨id, kept⟩ => ⟨id, (holds id message).mpr kept⟩

/-- **Every permitted operation keeps the messages accounted for.** -/
theorem valid_step (valid : ledger.Valid) {op : ProxyOp} (permitted : ledger.Permitted op) :
    (ledger.step op).Valid := by
  cases op with
  | construct id theLogger enabled tagName logLevelName => exact valid.construct permitted _
  | piece id piece =>
    rw [step]
    split
    · exact valid.of_holds_iff (fun _ _ alive => alive) (fun _ _ => Iff.rfl) (List.length_modify _ _ _) rfl
    · exact valid
  | moveConstruct source target =>
    obtain ⟨alive, free⟩ := permitted
    obtain ⟨handle, alive⟩ := Option.ne_none_iff_exists'.mp alive
    rw [step, alive]
    exact valid.moveConstruct alive free
  | destroy id =>
    obtain ⟨⟨message, owns⟩, alive⟩ := Option.ne_none_iff_exists'.mp permitted
    rw [step, alive]
    cases owns with
    | true => exact valid.finish alive
    | false =>
      refine valid.of_holds_iff (fun id' handle alive' => ?_) (fun id' number => ?_) rfl rfl
      · rcases update_eq_some.mp alive' with ⟨-, impossible⟩ | ⟨-, old⟩
        · cases impossible
        · exact old
      · rw [holds_update rfl]
        constructor
        · rintro (⟨-, impossible⟩ | ⟨-, kept⟩)
          · cases impossible
          · exact kept
        · refine fun kept => Or.inr ⟨?_, kept⟩
          rintro rfl
          rw [Holds, alive] at kept
          cases kept

/-! ### The program runs along -/

theorem exists_message (valid : ledger.Valid) {id : Nat} {handle : Handle}
    (alive : ledger.proxies id = some handle) :
    ∃ message, ledger.messages[handle.message]? = some message ∧
      ledger.world.proxies id = some (message.proxy handle.owns) := by
  have known := List.getElem?_eq_getElem (valid.known id handle alive)
  refine ⟨_, known, ?_⟩
  show (ledger.proxies id).bind _ = _
  rw [alive, Option.bind_some, known, Option.map_some]

/-- The calls of finished messages depend on these messages only. -/
theorem filterMap_callOf {messages later : List Message} {finished : List Nat}
    (same : ∀ message ∈ finished, later[message]? = messages[message]?) :
    finished.filterMap (callOf later) = finished.filterMap (callOf messages) := by
  refine List.filterMap_congr fun message member => ?_
  rw [callOf, same message member, callOf]

theorem world_construct (valid : ledger.Valid) (id : Nat) (message : Message) (fresh : message.pieces = []) :
    Ledger.world { ledger with
      messages := ledger.messages ++ [message]
      proxies := Function.update ledger.proxies id (some ⟨ledger.messages.length, true⟩) } =
    { ledger.world with
      proxies := Function.update ledger.world.proxies id (some (.construct message.theLogger
        message.enabled message.tagName message.logLevelName)) } := by
  refine congrArg₂ World.mk ?_ ?_
  · funext id'
    by_cases here : id' = id
    · subst here
      have stream : message.stream = {} := by
        rw [Message.stream, fresh]
        exact ite_self _
      simp [Message.proxy, LogGenProxy.construct, stream]
    · simp only [Function.update_of_ne here, world]
      cases alive : ledger.proxies id' with
      | none => rfl
      | some handle =>
        rw [Option.bind_some, Option.bind_some,
          List.getElem?_append_left (valid.known id' handle alive)]
  · exact filterMap_callOf fun number member => List.getElem?_append_left (valid.below number member)

theorem world_piece (valid : ledger.Valid) {id number : Nat} (holds : ledger.Holds id number)
    {message : Message} (known : ledger.messages[number]? = some message) (piece : Piece) :
    Ledger.world { ledger with messages := ledger.messages.modify number (·.add piece) } =
      { ledger.world with
        proxies := Function.update ledger.world.proxies id (some ((message.add piece).proxy true)) } := by
  refine congrArg₂ World.mk ?_ ?_
  · funext id'
    by_cases here : id' = id
    · subst here
      rw [Function.update_self, holds, Option.bind_some, List.getElem?_modify_eq, known]
      rfl
    · rw [Function.update_of_ne here]
      show (ledger.proxies id').bind _ = (ledger.proxies id').bind _
      cases alive : ledger.proxies id' with
      | none => rfl
      | some handle =>
        rw [Option.bind_some, Option.bind_some]
        by_cases same : handle.message = number
        · -- a proxy the message was moved from does not see its text
          have moved : handle.owns = false := by
            by_contra owns
            rw [Bool.not_eq_false] at owns
            refine here (valid.unique id' id number ?_ holds)
            rw [Holds, alive, ← same, ← owns]
          rw [same, List.getElem?_modify_eq, known, moved]
          rfl
        · rw [List.getElem?_modify_ne _ _ (Ne.symm same)]
  · have same : ∀ other ∈ ledger.finished,
        (ledger.messages.modify number (·.add piece))[other]? = ledger.messages[other]? := by
      intro other member
      refine List.getElem?_modify_ne _ _ ?_
      rintro rfl
      exact valid.released id _ holds member
    exact filterMap_callOf same

theorem world_moved {source target : Nat} {handle : Handle}
    (alive : ledger.proxies source = some handle) {message : Message}
    (known : ledger.messages[handle.message]? = some message) :
    (ledger.moved source target handle).world =
      { ledger.world with
        proxies := Function.update (Function.update ledger.world.proxies source
          (some (message.proxy handle.owns).moveFrom.2)) target
          (some (message.proxy handle.owns).moveFrom.1) } := by
  refine congrArg₂ World.mk ?_ rfl
  funext id
  by_cases new : id = target
  · subst new
    simp [moved, LogGenProxy.moveFrom, known]
  · by_cases old : id = source
    · subst old
      simp [moved, new, LogGenProxy.moveFrom, known, Message.proxy]
    · simp [moved, new, old, world]

theorem world_finish {id number : Nat} {message : Message}
    (known : ledger.messages[number]? = some message) :
    Ledger.world { ledger with
      proxies := Function.update ledger.proxies id none
      finished := ledger.finished ++ [number] } =
    { proxies := Function.update ledger.world.proxies id none
      calls := ledger.world.calls ++ message.call.toList } := by
  refine congrArg₂ World.mk ?_ ?_
  · funext id'
    by_cases here : id' = id
    · subst here
      simp
    · simp [here, world]
  · have call : callOf ledger.messages number = message.call := by
      rw [callOf, known, Option.bind_some]
    show (ledger.finished ++ [number]).filterMap (callOf ledger.messages) =
      ledger.finished.filterMap (callOf ledger.messages) ++ message.call.toList
    rw [List.filterMap_append, List.filterMap_cons, call]
    cases message.call with
    | none => rfl
    | some call => rfl

/-- **The program runs along with the ledger**, as long as it leaves proxies alone that were moved
from. -/
theorem world_step (valid : ledger.Valid) {op : ProxyOp} (permitted : ledger.Permitted op)
    (spares : ledger.SparesMovedFrom op) : ledger.world.step op = some (ledger.step op).world := by
  cases op with
  | construct id theLogger enabled tagName logLevelName =>
    rw [step, world_construct valid id _ rfl]
    rfl
  | piece id piece =>
    obtain ⟨⟨number, owns⟩, alive⟩ := Option.ne_none_iff_exists'.mp permitted
    obtain ⟨message, known, proxy⟩ := exists_message valid alive
    rw [World.step, step, alive, proxy]
    cases owns with
    | true =>
      have call := message.call_proxy piece
      rw [Option.bind_eq_bind, Option.bind_some, call]
      exact congrArg some (world_piece valid alive known piece).symm
    | false =>
      have disabled : message.enabled = false :=
        (spares _ message alive known).resolve_left Bool.false_ne_true
      have call : piece.call (message.proxy false) = some (message.proxy false) :=
        Piece.call_of_disabled disabled piece
      rw [Option.bind_eq_bind, Option.bind_some, call]
      refine congrArg some ?_
      show { ledger.world with
        proxies := Function.update ledger.world.proxies id (some (message.proxy false)) } = ledger.world
      rw [← proxy, Function.update_eq_self]
  | moveConstruct source target =>
    obtain ⟨alive, free⟩ := permitted
    obtain ⟨handle, alive⟩ := Option.ne_none_iff_exists'.mp alive
    obtain ⟨message, known, proxy⟩ := exists_message valid alive
    rw [World.step, step, alive, proxy, Option.bind_eq_bind, Option.bind_some]
    exact congrArg some (world_moved alive known).symm
  | destroy id =>
    obtain ⟨⟨number, owns⟩, alive⟩ := Option.ne_none_iff_exists'.mp permitted
    obtain ⟨message, known, proxy⟩ := exists_message valid alive
    obtain rfl : owns = true := spares _ alive
    rw [World.step, step, alive, proxy, Option.bind_eq_bind, Option.bind_some, message.destroy_proxy]
    exact congrArg some (world_finish known).symm

/-- **A null `ss_ptr` is used** by the destructor of a proxy that was moved from, and by a write
through an enabled one. -/
theorem world_step_none (valid : ledger.Valid) {op : ProxyOp} (permitted : ledger.Permitted op)
    (touches : ¬ ledger.SparesMovedFrom op) : ledger.world.step op = none := by
  cases op with
  | construct id theLogger enabled tagName logLevelName => exact absurd trivial touches
  | moveConstruct source target => exact absurd trivial touches
  | piece id piece =>
    obtain ⟨⟨number, owns⟩, alive⟩ := Option.ne_none_iff_exists'.mp permitted
    obtain ⟨message, known, proxy⟩ := exists_message valid alive
    have moved : owns = false := by
      by_contra holding
      refine touches fun handle _ alive' _ => Or.inl ?_
      obtain rfl := Option.some_injective _ (alive.symm.trans alive')
      exact (Bool.not_eq_false _).mp holding
    have enabled : message.enabled = true := by
      by_contra disabled
      refine touches fun handle other alive' known' => Or.inr ?_
      obtain rfl := Option.some_injective _ (alive.symm.trans alive')
      obtain rfl := Option.some_injective _ (known.symm.trans known')
      exact (Bool.not_eq_true _).mp disabled
    subst moved
    rw [World.step, proxy, Option.bind_eq_bind, Option.bind_some]
    have unused : piece.call (message.proxy false) = none := by
      cases piece <;> simp [Piece.call, LogGenProxy.insert, LogGenProxy.hexDump, Message.proxy, enabled]
    rw [unused]
    rfl
  | destroy id =>
    obtain ⟨⟨number, owns⟩, alive⟩ := Option.ne_none_iff_exists'.mp permitted
    obtain ⟨message, known, proxy⟩ := exists_message valid alive
    simp only [SparesMovedFrom, alive, Option.some.injEq, forall_eq', Bool.not_eq_true] at touches
    subst touches
    rw [World.step, proxy]
    rfl

/-- A program that leaves proxies alone that were moved from runs to its end. -/
theorem run_eq (valid : ledger.Valid) {ops : List ProxyOp} (permitted : Every Permitted ledger ops)
    (spares : Every SparesMovedFrom ledger ops) :
    run World.step ledger.world ops = some (ops.foldl step ledger).world ∧
      (ops.foldl step ledger).Valid := by
  induction ops generalizing ledger with
  | nil => exact ⟨rfl, valid⟩
  | cons op ops ih =>
    rw [run, world_step valid permitted.1 spares.1, Option.bind_some]
    exact ih (valid_step valid permitted.1) permitted.2 spares.2

/-- A program that runs to its end left them alone. -/
theorem every_spares_of_run (valid : ledger.Valid) {ops : List ProxyOp}
    (permitted : Every Permitted ledger ops) {final : World}
    (runs : run World.step ledger.world ops = some final) : Every SparesMovedFrom ledger ops := by
  induction ops generalizing ledger with
  | nil => trivial
  | cons op ops ih =>
    rw [run] at runs
    have spares : ledger.SparesMovedFrom op := by
      by_contra touches
      rw [world_step_none valid permitted.1 touches] at runs
      cases runs
    rw [world_step valid permitted.1 spares, Option.bind_some] at runs
    exact ⟨spares, ih (valid_step valid permitted.1) permitted.2 runs⟩

end Steps

end Ledger

/-- **One write per message.** The program never uses a null `ss_ptr`, and the calls of `writeData`
are those of the messages whose holder was destroyed, in that order and each once; every other
message still has a holder. -/
def OneWritePerMessage (ops : List ProxyOp) : Prop :=
  ∃ final, run World.step {} ops = some final ∧
    let ledger := ops.foldl Ledger.step {}
    final.calls = ledger.finished.filterMap (Ledger.callOf ledger.messages) ∧ ledger.finished.Nodup ∧
      ∀ message < ledger.messages.length,
        (message ∈ ledger.finished ↔ ¬ ∃ id, ledger.Holds id message)

/-- **Each message leads to one write exactly when** the program neither destroys a proxy that was
moved from nor writes through an enabled one. -/
theorem oneWritePerMessage_iff {ops : List ProxyOp} (permitted : Ledger.Every Ledger.Permitted {} ops) :
    OneWritePerMessage ops ↔ Ledger.Every Ledger.SparesMovedFrom {} ops := by
  have start : Ledger.world {} = {} := rfl
  constructor
  · rintro ⟨final, runs, -⟩
    exact Ledger.every_spares_of_run Ledger.valid_initial permitted runs
  · intro spares
    obtain ⟨runs, valid⟩ := Ledger.run_eq Ledger.valid_initial permitted spares
    refine ⟨_, runs, rfl, valid.nodup, fun message below => ⟨?_, ?_⟩⟩
    · rintro finished ⟨id, holds⟩
      exact valid.released id message holds finished
    · exact (valid.accounted message below).resolve_right

/-- A message whose proxy is moved, written to and destroyed; the proxy it was moved from stays. -/
def movedOnce : List ProxyOp :=
  [.construct 0 0 true sampleTag sampleLevel, .moveConstruct 0 1,
    .piece 1 (.insert (.string [104])), .destroy 1]

theorem permitted_movedOnce : Ledger.Every Ledger.Permitted {} movedOnce := by
  refine ⟨rfl, ⟨?_, rfl⟩, ?_, ?_, trivial⟩
  · exact Option.some_ne_none _
  · exact Option.some_ne_none _
  · exact Option.some_ne_none _

/-- It is written once. -/
theorem oneWritePerMessage_movedOnce : OneWritePerMessage movedOnce := by
  refine (oneWritePerMessage_iff permitted_movedOnce).mpr ⟨trivial, trivial, ?_, ?_, trivial⟩
  · rintro handle message alive -
    cases alive
    exact Or.inl rfl
  · rintro handle alive
    cases alive
    rfl

/-- The destructor of a proxy that was moved from uses its null `ss_ptr`. -/
theorem not_oneWritePerMessage_of_move :
    Ledger.Every Ledger.Permitted {} (movedOnce ++ [.destroy 0]) ∧
      ¬ OneWritePerMessage (movedOnce ++ [.destroy 0]) := by
  obtain ⟨first, second, third, fourth, -⟩ := permitted_movedOnce
  refine ⟨⟨first, second, third, fourth, Option.some_ne_none _, trivial⟩, ?_⟩
  rintro ⟨final, runs, -⟩
  cases runs

end StatLog.Logger
