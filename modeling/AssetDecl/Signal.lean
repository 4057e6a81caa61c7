/-!
# Signals

A list of subscribed callbacks. An emission runs the callbacks that are subscribed when it begins,
in the order of their connection, whatever they connect or disconnect.
-/

namespace AssetDecl

/-- Subscriptions to callbacks of type `κ`, oldest first. -/
structure Signal (κ : Type) where
  nextId : Nat := 0
  subscribers : List (Nat × κ) := []

namespace Signal

variable {κ σ : Type}

/-- Subscribes a callback under a fresh number. -/
def connect (s : Signal κ) (callback : κ) : Nat × Signal κ :=
  (s.nextId, { nextId := s.nextId + 1, subscribers := s.subscribers ++ [(s.nextId, callback)] })

/-- Whether a subscription is there. -/
def contains (s : Signal κ) (id : Nat) : Bool :=
  s.subscribers.any (·.1 == id)

/-- Ends a subscription, and tells whether it was there. -/
def disconnect (s : Signal κ) (id : Nat) : Bool × Signal κ :=
  (s.contains id, { s with subscribers := s.subscribers.filter (·.1 != id) })

def size (s : Signal κ) : Nat :=
  s.subscribers.length

def isEmpty (s : Signal κ) : Bool :=
  s.size == 0

/-- The callbacks subscribed now. -/
def callbacks (s : Signal κ) : List κ :=
  s.subscribers.map Prod.snd

/-- Runs the callbacks subscribed now; each may change the state, the signal included. -/
def emit (s : Signal κ) (run : κ → σ → σ) (state : σ) : σ :=
  s.callbacks.foldl (fun state callback => run callback state) state

/-- The signal as it is shown for debugging. -/
def debugText (s : Signal κ) : String :=
  "Signal \x7b subscribers: " ++ toString s.size ++ " \x7d"

/-- A subscription as it is shown for debugging. -/
def idText (id : Nat) : String :=
  "SubscriptionId(" ++ toString id ++ ")"

end Signal

end AssetDecl
