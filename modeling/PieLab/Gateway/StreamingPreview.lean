import PieLab.Tui.WordNavigation
import Mathlib.Data.List.Induction

/-
  The preview of a reply in a chat

  While a reply is streamed it is shown in messages of the chat service. Every update
  renders the text so far, cuts it into parts, and creates or edits one message for each
  part. A message is never deleted by an update: not when there are fewer parts than
  before, and not when the text is another one and the preview starts anew.

  What is proved:
    1. `update_follows` — what one update does to the messages.
    2. `preview_converges_iff` — at the end the messages are the parts of the final text
       exactly when no update starts anew behind a part and none has more parts than that.
    3. `stale_preview` — a text that is replaced by another one.

  Correspondence (TypeScript ↔ Lean), packages/coding-agent/src/core/gateway/chat/render:
    streaming.ts           `StreamingPreview` ↔ the same
    streaming-markdown.ts  `StreamingMarkdownRenderer`: `push`, `render`, `finish` ↔ the same
  What is rendered of a text (`remend` of what may be committed, `formatMarkdownForService`)
  and how it is cut (`chunkText`) are parameters. The parse mode and the message that is
  replied to go with each call as they are, and are left out.
-/

namespace PieLab.Gateway

open Tui (Text trimText)

/-! ## Rendering -/

structure PreviewHost where
  /-- What `render` makes of the accumulated text, finished or not. -/
  markdown : Bool → Text → Text
  /-- `formatMarkdownForService(service, markdown).text` -/
  format : Text → Text
  /-- `chunkText(text, maxMessageLength(service))` -/
  chunkText : Text → List Text

structure StreamingMarkdownRenderer where
  accumulated : Text := []
  dirty : Bool := true
  cachedRender : Text := []
  finished : Bool := false

def isBlank (text : Text) : Bool := (trimText text).isEmpty

structure PreviewChunk where
  id : Nat
  text : Text

/-- The preview, and the messages of the service; they are numbered as they are created. -/
structure StreamingPreview where
  renderer : StreamingMarkdownRenderer := {}
  rawText : Text := []
  chunks : List PreviewChunk := []
  remote : List PreviewChunk := []

/-- One call of `update`. -/
structure PreviewUpdate where
  rawText : Text
  finished : Bool

namespace StreamingMarkdownRenderer

def push (r : StreamingMarkdownRenderer) (chunk : Text) : StreamingMarkdownRenderer :=
  { r with accumulated := r.accumulated ++ chunk, dirty := true }

def render (h : PreviewHost) (r : StreamingMarkdownRenderer) : Text × StreamingMarkdownRenderer :=
  if !r.dirty then (r.cachedRender, r)
  else
    let cachedRender := h.markdown r.finished r.accumulated
    (cachedRender, { r with dirty := false, cachedRender })

def finish (h : PreviewHost) (r : StreamingMarkdownRenderer) : Text × StreamingMarkdownRenderer :=
  render h { r with finished := true, dirty := true }

end StreamingMarkdownRenderer

/-! ## The preview -/

namespace StreamingPreview

def reset (s : StreamingPreview) :
    StreamingPreview := { s with rawText := [], chunks := [], renderer := {} }

/-- `transport.create` -/
def create (s : StreamingPreview) (text : Text) : StreamingPreview :=
  let chunk : PreviewChunk := ⟨s.remote.length, text⟩
  { s with remote := s.remote ++ [chunk], chunks := s.chunks ++ [chunk] }

/-- `transport.edit` -/
def edit (s : StreamingPreview) (index : Nat) (existing : PreviewChunk) (text : Text) :
    StreamingPreview :=
  { s with
    remote := s.remote.map fun message => if message.id = existing.id then { message with text } else message
    chunks := s.chunks.set index { existing with text } }

/-- The loop over the parts, from `index` on. -/
def sendParts (s : StreamingPreview) : Nat → List Text → StreamingPreview
  | _, [] => s
  | index, part :: parts =>
    let text := if part = [] then [32] else part
    let s :=
      match s.chunks[index]? with
      | none => s.create text
      | some existing => if existing.text ≠ text then s.edit index existing text else s
    s.sendParts (index + 1) parts

def update (h : PreviewHost) (s : StreamingPreview) (u : PreviewUpdate) : StreamingPreview :=
  let s := if s.rawText.isPrefixOf u.rawText then s else s.reset
  let delta := u.rawText.drop s.rawText.length
  let renderer := if 0 < delta.length then s.renderer.push delta else s.renderer
  let (markdown, renderer) := if u.finished then renderer.finish h else renderer.render h
  let s := { s with rawText := u.rawText, renderer }
  let rendered := h.format markdown
  if isBlank rendered then s
  else
    let parts := (h.chunkText rendered).filter fun part => !isBlank part
    if parts = [] then s else s.sendParts 0 parts

end StreamingPreview

/-- The parts of a text. -/
def PreviewHost.parts (h : PreviewHost) (finished : Bool) (text : Text) : List Text :=
  let rendered := h.format (h.markdown finished text)
  if isBlank rendered then [] else (h.chunkText rendered).filter fun part => !isBlank part

/-! ## What the updates ask for -/

/-- The text before the next update, and whether it was finished. -/
def textBehind (updates : List PreviewUpdate) : Text × Bool :=
  updates.foldl (fun (rawText, finished) u => (u.rawText, (finished && rawText.isPrefixOf u.rawText) || u.finished))
    ([], false)

def Extends (before : List PreviewUpdate) (u : PreviewUpdate) :
    Bool := (textBehind before).1.isPrefixOf u.rawText

/-- The parts of update `u` behind the updates `before`; what is finished stays so. -/
def PreviewHost.partsAt (h : PreviewHost) (before : List PreviewUpdate) (u : PreviewUpdate) :
    List Text :=
  h.parts (((textBehind before).2 && Extends before u) || u.finished) u.rawText

/-- No update starts anew behind a part, and none has more than `count` parts. -/
structure Settles (h : PreviewHost) (updates : List PreviewUpdate) (count : Nat) : Prop where
  restarts : ∀ before u after, updates = before ++ u :: after → Extends before u = false →
    ∀ front v back, before = front ++ v :: back → h.partsAt front v = []
  grows : ∀ before u after, updates = before ++ u :: after → (h.partsAt before u).length ≤ count

/-! ## One update -/

/-- Messages with these texts. -/
def numbered (texts : List Text) : List PreviewChunk := texts.mapIdx PreviewChunk.mk

@[simp] theorem numbered_length (texts : List Text) :
    (numbered texts).length = texts.length := by simp [numbered]

theorem numbered_concat (texts : List Text) (text : Text) :
    numbered (texts ++ [text]) = numbered texts ++ [⟨texts.length, text⟩] := by
  simp [numbered, List.mapIdx_append]

theorem numbered_texts (texts : List Text) : (numbered texts).map PreviewChunk.text = texts := by
  apply List.ext_getElem?
  intro i
  simp [numbered, Function.comp_def]

theorem numbered_set (texts : List Text) (k : Nat) (text : Text) :
    (numbered texts).set k ⟨k, text⟩ = numbered (texts.set k text) := by
  apply List.ext_getElem?
  intro i
  by_cases hik : k = i
  · subst hik
    by_cases hk : k < texts.length <;> simp [numbered, hk]
  · simp [numbered, hik]

theorem numbered_edit (texts : List Text) (k : Nat) (text : Text) :
    (numbered texts).map (fun message => if message.id = k then { message with text } else message) =
      numbered (texts.set k text) := by
  apply List.ext_getElem?
  intro i
  by_cases hik : k = i
  · subst hik
    by_cases hk : k < texts.length <;> simp [numbered, hk]
  · cases hi : texts[i]? with
    | none => simp [numbered, hi, hik]
    | some other => simp [numbered, hi, hik, Ne.symm hik]

/-- The messages of earlier beginnings, and the ones the preview goes on with. -/
structure StreamingPreview.Holds (s : StreamingPreview) (orphans shown : List Text) : Prop where
  remote_eq : s.remote = numbered (orphans ++ shown)
  chunks_eq : s.chunks = (numbered (orphans ++ shown)).drop orphans.length

section Parts
variable {s : StreamingPreview} {orphans shown : List Text}

theorem StreamingPreview.Holds.getElem? (hs : s.Holds orphans shown) (index : Nat) :
    s.chunks[index]? = shown[index]?.map (PreviewChunk.mk (orphans.length + index)) := by
  rw [hs.chunks_eq, List.getElem?_drop, numbered, List.getElem?_mapIdx,
    List.getElem?_append_right (by omega)]
  simp

theorem StreamingPreview.Holds.sendParts (hs : s.Holds orphans shown) {parts : List Text}
    (hparts : ∀ part ∈ parts, part ≠ []) {index : Nat} (hindex : index ≤ shown.length) :
    (s.sendParts index parts).Holds orphans (shown.take index ++ (parts ++ shown.drop (index + parts.length))) ∧
      (s.sendParts index parts).rawText = s.rawText ∧ (s.sendParts index parts).renderer = s.renderer := by
  induction parts generalizing s shown index with
  | nil => simpa [StreamingPreview.sendParts] using hs
  | cons part parts ih =>
    have hpart : (if part = [] then [32] else part) = part :=
      if_neg (hparts part List.mem_cons_self)
    have hrest := fun other hother => hparts other (List.mem_cons_of_mem part hother)
    rw [StreamingPreview.sendParts, hpart, hs.getElem? index]
    by_cases hlast : index = shown.length
    · -- there is no message for this part yet
      have hcreated : (s.create part).Holds orphans (shown ++ [part]) := by
        refine ⟨?_, ?_⟩
        · simp [StreamingPreview.create, hs.remote_eq, ← List.append_assoc, numbered_concat]
        · simp [StreamingPreview.create, hs.chunks_eq, hs.remote_eq, ← List.append_assoc,
            numbered_concat,
            List.drop_append]
      obtain ⟨hsent, hraw, hrenderer⟩ := @ih _ _ hcreated hrest (index + 1) (by simp [hlast])
      rw [List.getElem?_eq_none (by omega)]
      refine ⟨?_, hraw, hrenderer⟩
      have htake : (shown ++ [part]).take (index + 1) = shown ++ [part] :=
        List.take_of_length_le (by simp [hlast])
      have hdrop : (shown ++ [part]).drop (index + 1 + parts.length) = [] :=
        List.drop_of_length_le (by simp [hlast])
      have hnone : shown.drop (index + (part :: parts).length) = [] :=
        List.drop_of_length_le (by simp [hlast])
      have hall : shown.take index = shown := List.take_of_length_le (by omega)
      rw [htake, hdrop] at hsent
      rw [hall, hnone]
      simpa using hsent
    · obtain ⟨front, old, back, rfl, rfl⟩ : ∃ front old back, shown = front ++ old :: back ∧
          front.length = index := by
        have hlt : index < shown.length := by omega
        exact ⟨shown.take index, shown[index], shown.drop (index + 1), by simp, by simp; omega⟩
      have hedited : (if old ≠ part then s.edit front.length ⟨orphans.length + front.length, old⟩ part else s).Holds
          orphans (front ++ part :: back) := by
        split
        · have hset : (orphans ++ (front ++ old :: back)).set (orphans.length + front.length) part =
              orphans ++ (front ++ part :: back) := by
            simp
          refine ⟨?_, ?_⟩
          · simp only [StreamingPreview.edit, hs.remote_eq]
            rw [numbered_edit, hset]
          · simp only [StreamingPreview.edit, hs.chunks_eq]
            rw [List.set_drop, numbered_set, hset]
        · rename_i hsame
          have hsame : old = part := by simpa using hsame
          rwa [hsame] at hs
      have hkept : (if old ≠ part then s.edit front.length ⟨orphans.length + front.length, old⟩ part else s).rawText =
          s.rawText ∧
          (if old ≠ part then s.edit front.length ⟨orphans.length + front.length, old⟩ part else s).renderer =
            s.renderer := by
        split <;> exact ⟨rfl, rfl⟩
      obtain ⟨hsent, hraw, hrenderer⟩ := @ih _ _ hedited hrest (front.length + 1) (by simp)
      simp only [List.getElem?_append_right (Nat.le_refl front.length), Nat.sub_self,
        List.getElem?_cons_zero,
        Option.map_some]
      refine ⟨?_, hraw.trans hkept.1, hrenderer.trans hkept.2⟩
      have htake : (front ++ part :: back).take (front.length + 1) = front ++ [part] := by
        have hall : front.take (front.length + 1) = front := List.take_of_length_le (by omega)
        simp [List.take_append, hall]
      have hdrop : (front ++ part :: back).drop (front.length + 1 + parts.length) =
          (front ++ old :: back).drop (front.length + (part :: parts).length) := by
        have hgone : front.drop (front.length + (parts.length + 1)) = [] :=
          List.drop_of_length_le (by omega)
        rw [Nat.add_assoc, Nat.add_comm 1, List.length_cons]
        simp [List.drop_append, hgone]
      rw [htake, hdrop] at hsent
      simpa using hsent

end Parts

/-- Where the preview stands behind some updates. -/
structure StreamingPreview.Follows (h : PreviewHost) (s : StreamingPreview)
    (updates : List PreviewUpdate)
    (orphans shown : List Text) : Prop where
  rawText_eq : s.rawText = (textBehind updates).1
  finished_eq : s.renderer.finished = (textBehind updates).2
  accumulated_eq : s.renderer.accumulated = s.rawText
  cached : s.renderer.dirty = false →
    s.renderer.cachedRender = h.markdown s.renderer.finished s.renderer.accumulated
  holds : s.Holds orphans shown

theorem textBehind_concat (updates : List PreviewUpdate) (u : PreviewUpdate) :
    textBehind (updates ++ [u]) =
    (u.rawText, ((textBehind updates).2 && Extends updates u) || u.finished) := by
  simp [textBehind, Extends]

theorem PreviewHost.parts_ne_nil {h : PreviewHost} {finished : Bool} {text part : Text}
    (hpart : part ∈ h.parts finished text) : part ≠ [] := by
  rintro rfl
  simp only [PreviewHost.parts] at hpart
  split at hpart
  · cases hpart
  · simp [isBlank, trimText] at hpart

/-- Rendering gives the text as it is asked for. -/
theorem StreamingMarkdownRenderer.rendered {h : PreviewHost} (r : StreamingMarkdownRenderer)
    (delta : Text) (finished : Bool)
    (hcached : r.dirty = false → r.cachedRender = h.markdown r.finished r.accumulated) {result : Text × StreamingMarkdownRenderer}
    (hresult : (if finished then (if 0 < delta.length then r.push delta else r).finish h
      else (if 0 < delta.length then r.push delta else r).render h) = result) :
    result.1 = h.markdown (r.finished || finished) (r.accumulated ++ delta) ∧
      result.2.finished = (r.finished || finished) ∧ result.2.accumulated = r.accumulated ++ delta ∧
      (result.2.dirty = false → result.2.cachedRender = h.markdown result.2.finished result.2.accumulated) := by
  subst hresult
  obtain ⟨accumulated, dirty, cachedRender, already⟩ := r
  cases delta <;> cases finished <;> cases dirty <;>
    simp_all [push, finish, render]

/-- One update: the parts stand in front, behind them what is left of longer ones. -/
theorem update_follows {h : PreviewHost} {s : StreamingPreview} {updates : List PreviewUpdate}
    {orphans shown : List Text} (hs : s.Follows h updates orphans shown) (u : PreviewUpdate) :
    (s.update h u).Follows h (updates ++ [u]) (if Extends updates u then orphans else orphans ++ shown)
      (h.partsAt updates u ++ (if Extends updates u then shown else []).drop (h.partsAt updates u).length) := by
  have hstart : ∃ start : StreamingPreview, (if s.rawText.isPrefixOf u.rawText then s else s.reset) = start ∧
      start.Holds (if Extends updates u then orphans else orphans ++ shown) (if Extends updates u then shown else []) ∧
      start.renderer.accumulated = start.rawText ∧ start.rawText <+: u.rawText ∧
      start.renderer.finished = ((textBehind updates).2 && Extends updates u) ∧
      (start.renderer.dirty = false →
        start.renderer.cachedRender = h.markdown start.renderer.finished start.renderer.accumulated) := by
    rw [Extends, ← hs.rawText_eq]
    by_cases hextends : s.rawText.isPrefixOf u.rawText = true
    · refine ⟨s, by simp [hextends], by simpa [hextends] using hs.holds, hs.accumulated_eq,
        List.isPrefixOf_iff_prefix.mp hextends, by simp [hextends, hs.finished_eq], hs.cached⟩
    · refine ⟨s.reset, by simp [hextends], ?_, rfl, List.nil_prefix,
        by simp [hextends, StreamingPreview.reset], nofun⟩
      have hremote := hs.holds.remote_eq
      constructor <;> simp [hextends, StreamingPreview.reset, hremote]
  obtain ⟨start, hreset, hholds, haccumulated, ⟨delta, hdelta⟩, hfinished, hcached⟩ := hstart
  have hdrop : u.rawText.drop start.rawText.length = delta := by
    rw [← hdelta, List.drop_left]
  simp only [StreamingPreview.update, hreset, hdrop]
  generalize hresult : (if u.finished then (if 0 < delta.length then start.renderer.push delta else start.renderer).finish h
    else (if 0 < delta.length then start.renderer.push delta else start.renderer).render h) = result
  obtain ⟨hmarkdown, hfinished', haccumulated', hcached'⟩ :=
    start.renderer.rendered delta u.finished hcached hresult
  rw [haccumulated, hdelta] at hmarkdown haccumulated'
  rw [hfinished] at hmarkdown hfinished'
  have hparts : h.partsAt updates u = if isBlank (h.format result.1) then []
      else (h.chunkText (h.format result.1)).filter fun part => !isBlank part := by
    rw [hmarkdown]
    rfl
  -- what the update comes to, whatever it sends
  have hends : ∀ t : StreamingPreview, t.rawText = u.rawText → t.renderer = result.2 →
      t.Holds (if Extends updates u then orphans else orphans ++ shown)
        (h.partsAt updates u ++ (if Extends updates u then shown else []).drop (h.partsAt updates u).length) →
      t.Follows h (updates ++ [u]) (if Extends updates u then orphans else orphans ++ shown)
        (h.partsAt updates u ++ (if Extends updates u then shown else []).drop (h.partsAt updates u).length) := by
    intro t hraw hrenderer ht
    refine ⟨?_, ?_, ?_, ?_, ht⟩
    · rw [hraw, textBehind_concat]
    · rw [hrenderer, hfinished', textBehind_concat]
    · rw [hrenderer, haccumulated', hraw]
    · rw [hrenderer]
      exact hcached'
  have hunsent : StreamingPreview.Holds { start with rawText := u.rawText, renderer := result.2 }
      (if Extends updates u then orphans else orphans ++ shown) (if Extends updates u then shown else []) :=
    ⟨hholds.remote_eq, hholds.chunks_eq⟩
  split
  · rename_i hblank
    rw [if_pos hblank] at hparts
    exact hends _ rfl rfl (by simpa [hparts] using hunsent)
  · rename_i hblank
    rw [if_neg hblank] at hparts
    rw [← hparts]
    split
    · rename_i hnone
      exact hends _ rfl rfl (by simpa [hnone] using hunsent)
    · obtain ⟨hsent, hraw, hrenderer⟩ := hunsent.sendParts
        (show ∀ part ∈ h.partsAt updates u, part ≠ [] from fun _ => PreviewHost.parts_ne_nil) (Nat.zero_le _)
      exact hends _ hraw hrenderer (by simpa using hsent)

/-! ## A run of updates -/

theorem forall_split_concat {P : List PreviewUpdate → PreviewUpdate → Prop}
    {updates : List PreviewUpdate} {u : PreviewUpdate} :
    (∀ before v after, updates ++ [u] = before ++ v :: after → P before v) ↔
      (∀ before v after, updates = before ++ v :: after → P before v) ∧ P updates u := by
  constructor
  · intro hall
    refine ⟨fun before v after heq => hall before v (after ++ [u]) (by rw [heq]; simp), hall updates u [] rfl⟩
  · rintro ⟨hinit, hlast⟩ before v after heq
    obtain rfl | ⟨more, last, rfl⟩ := List.eq_nil_or_concat' after
    · obtain ⟨rfl, hv⟩ := List.append_inj' heq rfl
      obtain rfl := List.cons.inj hv |>.1
      exact hlast
    · rw [← List.cons_append, ← List.append_assoc] at heq
      exact hinit before v more (List.append_inj' heq rfl).1

/-- What is left of earlier beginnings, and how many messages there are. -/
theorem run_follows (h : PreviewHost) (updates : List PreviewUpdate) : ∃ orphans shown,
    (updates.foldl (StreamingPreview.update h) {}).Follows h updates orphans shown ∧
      (orphans = [] ↔ ∀ before u after, updates = before ++ u :: after → Extends before u = false →
        ∀ front v back, before = front ++ v :: back → h.partsAt front v = []) ∧
      (orphans = [] → ∀ count, shown.length ≤ count ↔
        ∀ before u after, updates = before ++ u :: after → (h.partsAt before u).length ≤ count) ∧
      ∀ before u, updates = before ++ [u] → h.partsAt before u <+: shown := by
  induction updates using List.reverseRecOn with
  | nil => exact ⟨[], [], ⟨rfl, rfl, rfl, nofun, rfl, rfl⟩, by simp, by simp, by simp⟩
  | append_singleton updates u ih =>
    obtain ⟨orphans, shown, hs, horphans, hshown, _⟩ := ih
    rw [List.foldl_append, List.foldl_cons, List.foldl_nil]
    refine ⟨_, _, update_follows hs u, ?_, ?_, ?_⟩
    · -- a new beginning leaves nothing behind where nothing was shown
      rw [@forall_split_concat (fun before u => Extends before u = false →
        ∀ front v back, before = front ++ v :: back → h.partsAt front v = []), ← horphans]
      cases hextends : Extends updates u with
      | true => simp
      | false =>
        simp only [Bool.false_eq_true, if_false, List.append_eq_nil_iff, forall_const]
        refine and_congr_right fun hnone => ?_
        have hcount := hshown hnone 0
        simpa using hcount
    · intro hnone count
      rw [@forall_split_concat (fun before u => (h.partsAt before u).length ≤ count)]
      have hinit : orphans = [] := by
        split at hnone
        · exact hnone
        · exact (List.append_eq_nil_iff.mp hnone).1
      rw [← hshown hinit count]
      have hkept : (if Extends updates u = true then shown else []) = shown := by
        split
        · rfl
        · rename_i hstarts
          rw [if_neg hstarts] at hnone
          exact (List.append_eq_nil_iff.mp hnone).2.symm
      rw [hkept, List.length_append, List.length_drop]
      omega
    · intro before v heq
      obtain ⟨rfl, hv⟩ := List.append_inj' heq rfl
      obtain rfl := List.cons.inj hv |>.1
      exact List.prefix_append _ _

/-- At the end the messages are the parts of the final text exactly when no update started anew
behind a part, and none had more parts. -/
theorem preview_converges_iff (h : PreviewHost) (updates : List PreviewUpdate) (text : Text) :
    ((updates ++ [PreviewUpdate.mk text true]).foldl (StreamingPreview.update h) {}).remote.map PreviewChunk.text = h.parts true text ↔
      Settles h (updates ++ [⟨text, true⟩]) (h.parts true text).length := by
  obtain ⟨orphans, shown, hs, horphans, hshown, hlast⟩ := run_follows h (updates ++ [⟨text, true⟩])
  obtain ⟨rest, rfl⟩ : h.parts true text <+: shown := by
    simpa [PreviewHost.partsAt] using hlast updates ⟨text, true⟩ rfl
  rw [hs.holds.remote_eq, numbered_texts]
  constructor
  · intro hall
    have hlength := congrArg List.length hall
    simp only [List.length_append] at hlength
    have hnone : orphans = [] := List.length_eq_zero_iff.mp (by omega)
    have hcount : (h.parts true text ++ rest).length ≤ (h.parts true text).length := by
      rw [List.length_append]
      omega
    exact ⟨horphans.mp hnone, (hshown hnone _).mp hcount⟩
  · rintro ⟨hrestarts, hgrows⟩
    have hnone := horphans.mpr hrestarts
    have hlength := (hshown hnone _).mpr hgrows
    rw [List.length_append] at hlength
    have hrest : rest = [] := List.length_eq_zero_iff.mp (by omega)
    simp [hnone, hrest]

/-- Every code unit is a part. -/
def unitParts : PreviewHost := ⟨fun _ text => text, id, fun text => text.map fun c => [c]⟩

/-- A text that does not go on with the one before is shown behind it. -/
theorem stale_preview : ¬ ∀ (h : PreviewHost) (updates : List PreviewUpdate) (text : Text),
    ((updates ++ [PreviewUpdate.mk text true]).foldl (StreamingPreview.update h) {}).remote.map PreviewChunk.text =
      h.parts true text := by
  intro hconverges
  have hparts := hconverges unitParts [⟨[97], false⟩] [98]
  revert hparts
  decide

end PieLab.Gateway
