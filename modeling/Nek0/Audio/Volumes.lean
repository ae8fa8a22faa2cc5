import Nek0.Audio.JitterBuffer
import Nek0.Lib.System

/-!
# `Nek0.Audio.Volumes`: who a client's playback gain belongs to

`client_volumes` holds decibels under a user's UID, and `STATE.clients` says which UID a client id
stands for. A jitter buffer has its own copy of the gain: `decode_to_client_buffer` fills it when
it makes the buffer, and `ts_set_client_volume` overwrites it. `system` is the app with these three
tables, from its start.

`STATE.clients` is replaced as a whole, by `do_connect` and by the handler of a book event. So one
event (`refresh`) stands for joins, leaves, an id that goes to another user, a UID learned late and
a new session.
-/

set_option autoImplicit false

namespace Nek0.Audio

open Nek0.Lib (System)
open Nek0.Native (Instant TsClient)

namespace Gain

/-- The gain in decibels. -/
def level : Gain → ℚ
  | .unity => 0
  | .ofDecibel v => v

/-- The factor that samples are multiplied with. -/
noncomputable def factor : Gain → ℝ
  | .unity => 1
  | .ofDecibel v => (10 : ℝ) ^ ((v : ℝ) / 20)

end Gain

namespace AudioState

variable {Frame : Type}

/-- The UID that the roster has for a client id. -/
def uidOf (s : AudioState Frame) (clientId : UInt16) : Option String :=
  (s.clients.find? fun c => c.id.toUInt16 == clientId).bind (·.uid)

/-- The gain that `client_volumes` stands for at a UID. -/
def storedGain (s : AudioState Frame) (uid : String) : Gain :=
  match s.clientVolumes uid with
  | none => .unity
  | some db => .ofDecibel db

/-- `volume_db.clamp(-20.0, 20.0)`. -/
def clampVolume (volumeDb : ℚ) : ℚ := max (-20) (min volumeDb 20)

/-- The part of `ts_set_client_volume` under the `STATE` lock. -/
def persistVolume (s : AudioState Frame) (clientId : UInt16) (volDb : ℚ) : AudioState Frame :=
  match s.uidOf clientId with
  | none => s
  | some uid => { s with clientVolumes := Function.update s.clientVolumes uid (some volDb) }

/-- `ts_set_client_volume`. -/
def setClientVolume (s : AudioState Frame) (clientId : UInt16) (volumeDb : ℚ) :
    AudioState Frame :=
  let volDb := clampVolume volumeDb
  let s := s.persistVolume clientId volDb
  match s.clientBuffers clientId with
  | none => s
  | some buf =>
    { s with
        clientBuffers := Function.update s.clientBuffers clientId
          (some { buf with volume := .ofDecibel volDb }) }

/-- The assignment `state.clients = ..` of `do_connect` and of the book events. -/
def refresh (s : AudioState Frame) (clients : List TsClient) : AudioState Frame :=
  { s with clients := clients }

/-- What the user hears follows the stored volumes: a live buffer whose client id has a UID plays
with the gain stored for that UID, and with unity gain when none is stored. -/
def FollowsUser (s : AudioState Frame) : Prop :=
  ∀ id buf uid, s.clientBuffers id = some buf → s.uidOf id = some uid →
    buf.volume.factor =
      match s.clientVolumes uid with
      | some v => (10 : ℝ) ^ ((v : ℝ) / 20)
      | none => 1

end AudioState

namespace Volumes

variable {Frame : Type}

/-- What can happen next. A `restart` stands for each place that clears `CLIENT_BUFFERS`: a new or
rebuilt output stream, `ts_stop_audio` and the teardown after a disconnect. -/
inductive Event (Frame : Type) where
  | talk (fromId seq : UInt16) (played : UInt64) (now : Instant) (decoded : Option Frame)
  | mix (ids : List UInt16) (slot : UInt64)
  | cleanUp (now : Instant)
  | restart
  | refresh (clients : List TsClient)
  | setClientVolume (clientId : UInt16) (volumeDb : ℚ)

/-- What an event does. -/
def next : Event Frame → AudioState Frame → AudioState Frame
  | .talk fromId seq played now decoded, s =>
      { s with playedSamples := played }.decodeToClientBuffer now fromId seq decoded
  | .mix ids slot, s => ({ s with activeClientIds := ids }.mixSlot slot).1
  | .cleanUp now, s => s.cleanUp now
  | .restart, s => s.restart
  | .refresh clients, s => s.refresh clients
  | .setClientVolume clientId volumeDb, s => s.setClientVolume clientId volumeDb

/-- The app has just started. -/
structure Started (s : AudioState Frame) : Prop where
  noBuffers : s.clientBuffers = fun _ => none
  noClients : s.clients = []
  noVolumes : s.clientVolumes = fun _ => none

/-- The app's volumes over time. -/
def system : System (AudioState Frame) (Event Frame) where
  init := Started
  next e s := some (next e s)

end Volumes

end Nek0.Audio
