import Courier.Proofs.Toml.Lines
import Courier.Settings.File

/-!
# Written settings are read back

A document can hold every directory, and every number that is an integer of TOML. `parse?_render` says
which document `Settings.render` writes, and `ofText?_render` that the settings are read back from it,
whatever they are laid over.
-/

namespace Courier.Settings

open Toml

variable {s : Settings}

/-- The numbers of these settings are integers of a document. -/
structure Writable (s : Settings) : Prop where
  maxQueueSize : s.transport.maxQueueSize < integerBound
  closeGraceSecs : s.transport.closeGraceSecs < integerBound
  flushTimeoutMs : s.transport.flushTimeoutMs < integerBound
  maxItems : s.cache.maxItems < integerBound

theorem writable_default (env : Environment) : (Settings.default env).Writable :=
  ⟨show 30 < integerBound by decide, show 60 < integerBound by decide,
    show 15000 < integerBound by decide, show 30 < integerBound by decide⟩

/-- The fields of the transport in a document. -/
def transportMembers (s : TransportSettings) : Members :=
  [("max_queue_size", .integer s.maxQueueSize), ("close_grace_secs", .integer s.closeGraceSecs),
    ("flush_timeout_ms", .integer s.flushTimeoutMs)]

/-- The fields of the cache in a document. -/
def cacheMembers (s : CacheSettings) : Members :=
  [("dir", .text s.dir), ("max_items", .integer s.maxItems)]

/-- The lines of the document that gives these settings. -/
def lines (s : Settings) : List Line :=
  (.header ["transport"] :: pairLines (transportMembers s.transport)) ++
    .header ["cache"] :: pairLines (cacheMembers s.cache)

/-! ## Lines -/

theorem isBare_names : ∀ name ∈ ["transport", "max_queue_size", "close_grace_secs",
    "flush_timeout_ms", "cache", "dir", "max_items"], IsBare name := by
  decide +kernel

theorem toList_render (s : Settings) : s.render.toList =
    '[' :: ("transport".toList ++ ']' :: '\n' ::
      (line "max_queue_size" (digits s.transport.maxQueueSize) ++
      (line "close_grace_secs" (digits s.transport.closeGraceSecs) ++
      (line "flush_timeout_ms" (digits s.transport.flushTimeoutMs) ++
      '\n' :: '[' :: ("cache".toList ++ ']' :: '\n' ::
      (line "dir" (quote s.cache.dir.toList) ++
      (line "max_items" (digits s.cache.maxItems) ++ []))))))) := by
  have hopen : "[transport]\n".toList = '[' :: ("transport".toList ++ [']', '\n']) := by
    decide +kernel
  have hnext : "\n[cache]\n".toList = '\n' :: '[' :: ("cache".toList ++ [']', '\n']) := by
    decide +kernel
  refine String.toList_ofList.trans ?_
  simp only [hopen, hnext, List.append_assoc, List.cons_append, List.nil_append, List.append_nil]

theorem lines?_line {name : String} {written : List Char} {value : Toml} (h : IsBare name)
    (hspells : Spells written value) (fuel : Nat) (rest : List Char) :
    lines? (fuel + 1) (line name written ++ rest) =
      (lines? fuel rest).map (.pair [name] value :: ·) :=
  lines?_pair h hspells fuel rest

/-- The lines of the document are read back. There are eight of them, one of which is empty. -/
theorem lines?_render (h : s.Writable) (fuel : Nat) :
    lines? (fuel + 9) s.render.toList = some s.lines := by
  have hdir : Spells (quote s.cache.dir.toList) (.text s.cache.dir) := by
    have hspells := spells_quote s.cache.dir.toList
    rwa [String.ofList_toList] at hspells
  have hnumber {n : Nat} (hn : n < integerBound) : Spells (digits n) (.integer n) :=
    spells_digits hn
  rw [toList_render, lines?_header (isBare_names "transport" (by simp)),
    lines?_line (isBare_names "max_queue_size" (by simp)) (hnumber h.maxQueueSize),
    lines?_line (isBare_names "close_grace_secs" (by simp)) (hnumber h.closeGraceSecs),
    lines?_line (isBare_names "flush_timeout_ms" (by simp)) (hnumber h.flushTimeoutMs),
    lines?_break, lines?_header (isBare_names "cache" (by simp)),
    lines?_line (isBare_names "dir" (by simp)) hdir,
    lines?_line (isBare_names "max_items" (by simp)) (hnumber h.maxItems), lines?_nil]
  rfl

/-! ## Documents -/

theorem foldlM_lines (s : Settings) : s.lines.foldlM Draft.add? Draft.empty =
    some ⟨[("transport", .table .header (transportMembers s.transport))], ["cache"], false,
      cacheMembers s.cache⟩ := by
  have htransport : ((transportMembers s.transport).map Prod.fst).Nodup := by
    show ["max_queue_size", "close_grace_secs", "flush_timeout_ms"].Nodup
    decide +kernel
  have hcache : ((cacheMembers s.cache).map Prod.fst).Nodup := by
    show ["dir", "max_items"].Nodup
    decide +kernel
  have hopen : (.header ["transport"] :: pairLines (transportMembers s.transport)).foldlM Draft.add?
      Draft.empty = some ⟨[], ["transport"], false, transportMembers s.transport⟩ :=
    foldlM_table (finish?_of_nil rfl) rfl htransport
  have hfinish : Draft.finish? ⟨[], ["transport"], false, transportMembers s.transport⟩ =
      some [("transport", .table .header (transportMembers s.transport))] :=
    finish?_of_new rfl rfl rfl
  rw [lines, List.foldlM_append, hopen, Option.bind_eq_bind, Option.bind_some]
  refine foldlM_table hfinish ?_ hcache
  simp

/-- The document has a table for the transport and one for the cache. -/
theorem parse?_render (h : s.Writable) :
    parse? s.render.toList = some [("transport", .table .header (transportMembers s.transport)),
      ("cache", .table .header (cacheMembers s.cache))] := by
  have hmark : skipMark s.render.toList = s.render.toList := by
    rw [toList_render]
    rfl
  obtain ⟨fuel, hfuel⟩ : ∃ fuel, s.render.toList.length + 1 = fuel + 9 := by
    have hname : "transport".toList.length = 9 := by decide +kernel
    refine ⟨s.render.toList.length - 8, ?_⟩
    rw [toList_render, List.length_cons, List.length_append, hname]
    omega
  rw [parse?, hmark, hfuel, lines?_render h, Option.bind_some, foldlM_lines, Option.bind_some]
  exact finish?_of_new rfl rfl (by simp)

/-! ## Settings -/

theorem lookup_cons_of_ne {name : String} {m : String × Toml} (h : name ≠ m.1) (more : Members) :
    (m :: more).lookup name = more.lookup name := by
  have hbeq : (name == m.1) = false := by simpa using h
  rw [List.lookup_cons, hbeq]

theorem nat?_integer (n : Nat) : nat? (.integer n) = some n := by
  simp [nat?]

/-- Written settings are read back, whatever they are laid over. -/
theorem ofText?_render (h : s.Writable) (base : Settings) : base.ofText? s.render = some s := by
  have htransport (base : TransportSettings) : base.ofToml? (.table .header
      (transportMembers s.transport)) = some s.transport := by
    simp [TransportSettings.ofToml?, record?, field?, transportMembers, lookup_cons_of_ne, nat?_integer]
  have hcache (base : CacheSettings) : base.ofToml? (.table .header (cacheMembers s.cache)) =
      some s.cache := by
    simp [CacheSettings.ofToml?, record?, field?, cacheMembers, lookup_cons_of_ne, nat?_integer, string?]
  unfold ofText?
  rw [parse?_render h]
  simp [field?, lookup_cons_of_ne, htransport, hcache]

end Courier.Settings
