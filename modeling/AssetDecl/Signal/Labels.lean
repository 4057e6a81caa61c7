import AssetDecl.Signal
import Std.Data.ExtTreeMap

/-!
# Labelled subscriptions

A signal whose callbacks are small programs: each logs its label, and then may end subscriptions and
make new ones by label.
-/

namespace AssetDecl

mutual

/-- What a callback does after it has logged its label. -/
inductive LabelAction where
  /-- Ends the subscription last made under a label, and logs whether it was there. -/
  | disconnect (label : String)
  | connect (callback : LabelCallback)

inductive LabelCallback where
  | mk (label : String) (actions : List LabelAction)

end

instance : Inhabited LabelCallback := ⟨.mk "" []⟩

namespace LabelCallback

def label : LabelCallback → String
  | mk label _ => label

def actions : LabelCallback → List LabelAction
  | mk _ actions => actions

end LabelCallback

/-- A signal, the subscription last made under each label, and the log. -/
structure LabelledSignal where
  signal : Signal LabelCallback := {}
  lastId : Std.ExtTreeMap String Nat := ∅
  log : List String := []

namespace LabelledSignal

def connect (s : LabelledSignal) (callback : LabelCallback) : Nat × LabelledSignal :=
  let (id, signal) := s.signal.connect callback
  (id, { s with signal, lastId := s.lastId.insert callback.label id })

/-- Ends the subscription last made under a label, if one was ever made. -/
def disconnect (s : LabelledSignal) (label : String) : Option Bool × LabelledSignal :=
  match s.lastId[label]? with
  | none => (none, s)
  | some id =>
    let (done, signal) := s.signal.disconnect id
    (some done, { s with signal })

def note (s : LabelledSignal) (line : String) : LabelledSignal :=
  { s with log := s.log ++ [line] }

def runAction (s : LabelledSignal) : LabelAction → LabelledSignal
  | .connect callback => (s.connect callback).2
  | .disconnect label =>
    match s.disconnect label with
    | (none, s) => s
    | (some done, s) => s.note (label ++ "-" ++ toString done)

def runCallback (callback : LabelCallback) (s : LabelledSignal) : LabelledSignal :=
  callback.actions.foldl runAction (s.note callback.label)

def emit (s : LabelledSignal) : LabelledSignal :=
  s.signal.emit runCallback s

/-- Hands out the log. -/
def takeLog (s : LabelledSignal) : List String × LabelledSignal :=
  (s.log, { s with log := [] })

end LabelledSignal

end AssetDecl
