/-
This file looks selectors up through inline caches. A cache holds at most two receiver
shapes with the targets found for them. The primary entry stays as long as its shape is
the latest of its class; the secondary entry is replaced at every miss beside a primary
entry that stays. A lookup that finds nothing leaves the cache as it was.
-/

import ObjectMachine.Heap

namespace ObjectMachine

namespace InlineCache

/-- The target an entry has for a shape. -/
def targetFor? (entry : Option CacheEntry) (shape : ShapeId) : Option Invokable :=
  match entry with
  | some entry => if entry.shape = shape then some entry.target else none
  | none => none

/-- An entry counts for nothing once its shape is superseded. -/
def current? (shapes : ShapeTable) (entry : Option CacheEntry) : Option CacheEntry :=
  entry.filter fun entry => (shapes.get entry.shape).latest

/-- Drops the entries of superseded shapes. -/
def dropStale (cache : InlineCache) (shapes : ShapeTable) : InlineCache :=
  ⟨current? shapes cache.primary, current? shapes cache.secondary⟩

end InlineCache

namespace Heap

/--
The target of a selector for a receiver of class `cls` laid out as `shape`, and the cache
afterwards.
-/
def lookupCached (heap : Heap) (cls : ClassId) (shape : ShapeId) (selector : Symbol)
    (cache : InlineCache) : Option Invokable × InlineCache :=
  match InlineCache.targetFor? cache.primary shape with
  | some target => (some target, cache)
  | none =>
    if (InlineCache.current? heap.shapes cache.primary).isNone then
      match heap.lookup? cls selector with
      | some target => (some target, { cache with primary := some ⟨shape, target⟩ })
      | none => (none, cache)
    else
      match InlineCache.targetFor? cache.secondary shape with
      | some target => (some target, cache)
      | none =>
        match heap.lookup? cls selector with
        | some target => (some target, { cache with secondary := some ⟨shape, target⟩ })
        | none => (none, cache)

end Heap

end ObjectMachine
