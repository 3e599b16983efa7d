/-
This file models how calls of `Allocate` and `Release` of the kvstore allocator share the table of
local keys, `pkg/allocator/allocator.go` and `localkeys.go`. `Allocate` takes the mutex of the
slave keys after it has read the master key, and holds it until its attempt ends; the look at the
local keys an attempt begins with does not take it. What the backend and the caches answer is left
open.
-/

import Constellation.Lib.GoMap
import Constellation.Lib.Run

namespace Constellation.Kvstore

open Lib GoMap

/-! ### Local keys -/

/-- An identity; zero is none. -/
abbrev ID := Nat

structure LocalKey where
  val : ID
  refcnt : Nat
  verified : Bool := false
  deriving DecidableEq, Repr

/-- The reference counts are unsigned numbers of 64 bits. -/
def LocalKey.increment (localKey : LocalKey) : LocalKey :=
  { localKey with refcnt := (localKey.refcnt + 1) % 2 ^ 64 }

def LocalKey.decrement (localKey : LocalKey) : LocalKey :=
  { localKey with refcnt := if localKey.refcnt = 0 then 2 ^ 64 - 1 else localKey.refcnt - 1 }

abbrev LocalKeys := GoMap String LocalKey

namespace LocalKeys

variable (keys : LocalKeys) (key : String)

/-- A key must not be known with another value. -/
def allocate (val : ID) : Option (LocalKeys × ID) :=
  match keys.lookup key with
  | some localKey =>
    if val ≠ localKey.val then none
    else some (keys.insert key localKey.increment, localKey.val)
  | none => some (keys.insert key { val, refcnt := 1 }, val)

def verify : LocalKeys :=
  match keys.lookup key with
  | some localKey => keys.insert key { localKey with verified := true }
  | none => keys

def lookupKey : ID :=
  match keys.lookup key with
  | some localKey => localKey.val
  | none => 0

/-- A key has to be verified. -/
def use : LocalKeys × ID :=
  match keys.lookup key with
  | some localKey =>
    if !localKey.verified then (keys, 0)
    else (keys.insert key localKey.increment, localKey.val)
  | none => (keys, 0)

/-- Tells whether it was the last reference. -/
def release : Option (LocalKeys × Bool) :=
  match keys.lookup key with
  | some localKey =>
    if localKey.decrement.refcnt = 0 then some (keys.erase key, true)
    else some (keys.insert key localKey.decrement, false)
  | none => none

end LocalKeys

/-! ### Calls -/

inductive Stage
  | attempt
  | locking
  | locked (value : ID)
  | inside
  | failed
  | returned (id : Option ID)
  deriving DecidableEq, Repr

structure Call where
  key : String
  left : Nat
  stage : Stage
  deriving DecidableEq, Repr

inductive Section
  | recreating (value : ID)
  | selecting
  | checking (id : ID)
  | creating (id : ID)
  | acquiring (id : ID)
  deriving DecidableEq, Repr

structure Holder where
  call : Nat
  key : String
  left : Nat
  stage : Section
  deriving DecidableEq, Repr

/-- With the identities that the users of each key have got and not released. -/
structure Allocator where
  localKeys : LocalKeys := ∅
  holder : Option Holder := none
  calls : Nat → Option Call := fun _ => none
  users : String → List ID := fun _ => []

namespace Allocator

variable (a : Allocator)

def goto (call : Nat) (c : Call) (stage : Stage) : Allocator :=
  { a with calls := Function.update a.calls call (some { c with stage }) }

def succeed (call : Nat) (c : Call) (id : ID) : Allocator :=
  { a with
    calls := Function.update a.calls call (some { c with stage := .returned (some id) })
    users := Function.update a.users c.key (id :: a.users c.key) }

def proceedTo (h : Holder) (stage : Section) : Allocator :=
  { a with holder := some { h with stage } }

def fail (h : Holder) : Allocator :=
  { a with holder := none }.goto h.call ⟨h.key, h.left, .inside⟩ .failed

def failReleasing (h : Holder) : Allocator :=
  match a.localKeys.release h.key with
  | some (localKeys, _) => { a with localKeys }.fail h
  | none => a.fail h

/-- The first part of `lockedAllocate` under the mutex. -/
def enter (call : Nat) (c : Call) (value : ID) : Allocator :=
  let h : Holder := ⟨call, c.key, c.left, .selecting⟩
  let inside := a.goto call c .inside
  if value = 0 then
    if a.localKeys.lookupKey c.key = 0 then inside.proceedTo h .selecting
    else inside.proceedTo h (.recreating (a.localKeys.lookupKey c.key))
  else
    match a.localKeys.allocate c.key value with
    | some (localKeys, _) => { inside with localKeys }.proceedTo h (.acquiring value)
    | none => a.fail h

def resume (call : Nat) (c : Call) (reply : Option ID) : Allocator :=
  match c.stage with
  | .attempt =>
    let (localKeys, id) := a.localKeys.use c.key
    if id ≠ 0 then { a with localKeys }.succeed call c id
    else { a with localKeys }.goto call c .locking
  | .locking =>
    match reply with
    | some value => a.goto call c (.locked value)
    | none => a.goto call c .failed
  | .locked value => if a.holder.isSome then a else a.enter call c value
  | .failed =>
    match reply, c.left with
    | some _, left + 1 => a.goto call { c with left } .attempt
    | _, _ => a.goto call c (.returned none)
  | .inside | .returned _ => a

def proceed (h : Holder) (reply : Option ID) : Allocator :=
  match h.stage with
  | .recreating value =>
    match reply with
    | some _ => a.proceedTo h (.acquiring value)
    | none => a.fail h
  | .selecting =>
    match reply with
    | none | some 0 => a.fail h
    | some id =>
      match a.localKeys.allocate h.key id with
      | none => a.fail h
      | some (localKeys, oldID) =>
        if id ≠ oldID then { a with localKeys }.failReleasing h
        else { a with localKeys }.proceedTo h (.checking id)
  | .checking id =>
    if reply = some 0 then a.proceedTo h (.creating id) else a.failReleasing h
  | .creating id =>
    match reply with
    | some _ => a.proceedTo h (.acquiring id)
    | none => a.failReleasing h
  | .acquiring id =>
    match reply with
    | some _ => { a with localKeys := a.localKeys.verify h.key, holder := none }.succeed h.call
        ⟨h.key, h.left, .inside⟩ id
    | none => a.failReleasing h

/-- A call that finds no local key has no effect. -/
def release (key : String) : Allocator :=
  match a.localKeys.release key with
  | some (localKeys, _) =>
    { a with localKeys, users := Function.update a.users key (a.users key).tail }
  | none => a

end Allocator

/-! ### Runs -/

/-- A call of `Allocate` begins with some attempts left after the first. -/
inductive Event
  | allocate (call : Nat) (key : String) (left : Nat)
  | resume (call : Nat) (reply : Option ID)
  | proceed (reply : Option ID)
  | release (key : String)
  deriving DecidableEq, Repr

/-- A call that has to wait for the mutex has no effect. -/
def Allocator.step (a : Allocator) : Event → Allocator
  | .allocate call key left =>
    if (a.calls call).isSome then a else a.goto call ⟨key, left, .attempt⟩ .attempt
  | .resume call reply =>
    match a.calls call with
    | some c => a.resume call c reply
    | none => a
  | .proceed reply =>
    match a.holder with
    | some h => a.proceed h reply
    | none => a
  | .release key => if a.holder.isSome then a else a.release key

end Constellation.Kvstore
