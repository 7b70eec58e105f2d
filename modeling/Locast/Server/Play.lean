import Locast.Server.Frame

/-!
# Playing a run

Runs can be computed: a list of moves played on an empty server, with the default configuration, is
a run as soon as each of its steps meets the guard.
-/

namespace Locast.Server

open Locast.Lib Locast.Protocol Locast.Rooms

/-- The defaults of `config.rs`. -/
def defaultConfig : RoomRegistryConfig where
  maxParticipants := 8
  hostDisconnectGraceMs := 30000
  participantStaleAfterMs := 300000
  participantDisconnectAfterMs := 15000

/-- Every signature is good and every manifest fits one frame. -/
def plainCrates : Crates where
  verifyManifest _ := true
  fromBase64 _ := some (List.replicate 32 0)
  uuidToString := toString
  manifestHash _ := .ok (Vector.replicate 32 0)
  splitPublished _ _ _ := none
  splitResponse _ _ _ := none
  verifyStroke _ _ _ := true
  verifySignal _ _ _ := true

/-- The server of the examples. -/
def Env.plain : Env where
  cfg := defaultConfig
  crates := plainCrates

/-- A key. -/
def PubKey.filled (b : UInt8) : PubKey := Vector.replicate 32 b

/-- A step's input when the registry holds the rooms `order` and no call fails; ids and codes are
drawn as `id` and `code`. -/
def Input.plain (order : List Uuid) (id : Uuid) (code : String) : Input where
  clockMs := 0
  wallMs := 0
  id := id
  code := code
  order := order
  faults := []
  delivered := true

/-- `n` steps of the `i`-th task. -/
def steps (i n : ℕ) (inp : Input) : List (Move Op Input) := List.replicate n (.advance i inp)

/-- The moves played on an empty server. -/
def played (env : Env) (moves : List (Move Op Input)) : Option (List Step × Tasks) :=
  (system env).play [] ⟨ServerState.empty, []⟩ moves

/-- The moves played on any server. -/
def playedFrom (env : Env) (st₀ : ServerState) (moves : List (Move Op Input)) :
    Option (List Step × Tasks) :=
  (system env).play [] ⟨st₀, []⟩ moves

instance (p : Tasks) : Decidable p.quiet :=
  inferInstanceAs (Decidable (∀ t ∈ p.tasks, t.result.isSome = true))

/-- **A played list of moves is a run.** -/
theorem runFrom_of_played {env : Env} {guard : List Step → Step → Prop} {st₀ : ServerState}
    {moves : List (Move Op Input)} (hp : (playedFrom env st₀ moves).isSome)
    (hg : ∀ i (hi : i < ((playedFrom env st₀ moves).get hp).1.length),
      guard (((playedFrom env st₀ moves).get hp).1.take i)
        ((playedFrom env st₀ moves).get hp).1[i]) :
    RunFrom env guard st₀ ((playedFrom env st₀ moves).get hp).1
      ((playedFrom env st₀ moves).get hp).2 :=
  System.run_of_play .start (Option.some_get hp).symm fun i hi _ => hg i hi

/-- From an empty server. -/
theorem run_of_played {env : Env} {guard : List Step → Step → Prop} {moves : List (Move Op Input)}
    (hp : (played env moves).isSome)
    (hg : ∀ i (hi : i < ((played env moves).get hp).1.length),
      guard (((played env moves).get hp).1.take i) ((played env moves).get hp).1[i]) :
    Run env guard ((played env moves).get hp).1 ((played env moves).get hp).2 :=
  System.run_of_play .start (Option.some_get hp).symm fun i hi _ => hg i hi

end Locast.Server
