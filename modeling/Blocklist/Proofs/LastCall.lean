import Blocklist.CompiledList
import Blocklist.Proofs.Text.Markers
import Blocklist.Proofs.WrittenScopes

/-!
# The last call of a line

A call of a scriptlet stands where the mark `#+js(` is followed by at least one character and then by
a closing bracket. Of the calls in a line the last one counts: its arguments run to the next closing
bracket, and its domains are all that stands before it. A call that is written is read back.

## Implementation notes

The search passes a line once, up to its last closing bracket, and keeps the last call it has seen.
`CallAt` and `LastCall` speak of the whole line and of no search.
-/

namespace Blocklist.Filter

/-- A call stands in a line between the text before it and whatever follows its closing bracket. -/
structure CallAt (line before payload : List Char) : Prop where
  exists_after : ∃ after, line = before ++ (callMark ++ (payload ++ ')' :: after))
  nonempty : payload ≠ []
  noClose : ')' ∉ payload

/-- A call that no other one starts behind. -/
structure LastCall (line before payload : List Char) : Prop
    extends CallAt line before payload where
  last : ∀ before' payload', CallAt line before' payload' → before'.length ≤ before.length

/-- A call in a line is the last one or has another one behind it, so there is a last one. -/
theorem CallAt.exists_lastCall {line before payload : List Char} (h : CallAt line before payload) :
    ∃ before payload, LastCall line before payload := by
  -- a later call leaves less of the line behind its start
  induction hrest : line.length - before.length using Nat.strongRecOn
    generalizing before payload with
  | ind n ih =>
      by_cases hlast : ∀ before' payload', CallAt line before' payload' →
          before'.length ≤ before.length
      · exact ⟨before, payload, h, hlast⟩
      · push Not at hlast
        obtain ⟨before', payload', hcall, hlater⟩ := hlast
        have hle : before'.length < line.length := by
          obtain ⟨after, hline⟩ := hcall.exists_after
          simp [hline, callMark]
        exact ih _ (by omega) hcall rfl

/-! ### The text up to the last closing bracket -/

theorem throughLastClose_append_cons (a b : List Char) :
    throughLastClose (a ++ ')' :: b) = a ++ ')' :: throughLastClose b := by
  rw [throughLastClose, throughLastClose, List.reverse_append, List.reverse_cons,
    List.append_assoc, List.dropWhile_append]
  split
  · rename_i hempty
    rw [List.isEmpty_iff.mp hempty]
    simp
  · simp

/-- Behind the last closing bracket there is none. -/
theorem exists_throughLastClose_append (line : List Char) :
    ∃ rest, line = throughLastClose line ++ rest ∧ ')' ∉ rest := by
  refine ⟨(line.reverse.takeWhile (· ≠ ')')).reverse, ?_, ?_⟩
  · rw [throughLastClose, ← List.reverse_append, List.takeWhile_append_dropWhile,
      List.reverse_reverse]
  · rw [List.mem_reverse]
    intro hmem
    simpa using List.mem_takeWhile_imp hmem

/-- The last character of that text, if there is one, is a closing bracket. -/
theorem getLast?_throughLastClose {line : List Char} {c : Char}
    (h : (throughLastClose line).getLast? = some c) : c = ')' := by
  rw [throughLastClose, List.getLast?_reverse] at h
  have hhead := List.head?_dropWhile_not (fun c => decide (c ≠ ')')) line.reverse
  rw [h] at hhead
  simpa using hhead

/-- Every end of that text has a closing bracket. -/
theorem close_mem_of_throughLastClose_eq {line a b : List Char}
    (h : throughLastClose line = a ++ b) (hb : b ≠ []) : ')' ∈ b := by
  obtain ⟨c, hc⟩ : ∃ c, b.getLast? = some c := ⟨_, List.getLast?_eq_some_getLast hb⟩
  have hlast : (throughLastClose line).getLast? = some c := by
    rw [h, List.getLast?_append, hc, Option.some_or]
  exact getLast?_throughLastClose hlast ▸ List.mem_of_getLast? hc

/-! ### Marks of calls -/

/-- A mark with something behind it that is no closing bracket. -/
theorem afterMark?_eq_some_iff {s rest : List Char} :
    afterMark? s = some rest ↔ s = callMark ++ rest ∧ ∃ c, rest.head? = some c ∧ c ≠ ')' := by
  constructor
  · intro h
    rw [afterMark?] at h
    split at h
    · rename_i c tail hlead
      split at h
      · cases h
      · rename_i hc
        cases h
        exact ⟨Text.eq_append_of_dropLead? hlead, c, rfl, hc⟩
    · cases h
  · rintro ⟨rfl, c, hhead, hc⟩
    obtain ⟨tail, rfl⟩ := List.head?_eq_some_iff.mp hhead
    rw [afterMark?, Text.dropLead?_append]
    exact if_neg hc

/-- A mark before the last closing bracket is the mark of a call. -/
theorem callAt_of_afterMark? {line before s rest : List Char}
    (hline : throughLastClose line = before ++ s) (hmark : afterMark? s = some rest) :
    CallAt line before (rest.takeWhile (· ≠ ')')) := by
  obtain ⟨hs, c, hhead, hc⟩ := afterMark?_eq_some_iff.mp hmark
  have hne : rest ≠ [] := by
    rintro rfl
    cases hhead
  have hthrough : throughLastClose line = (before ++ callMark) ++ rest := by
    rw [hline, hs, List.append_assoc]
  have hclose : ')' ∈ rest := close_mem_of_throughLastClose_eq hthrough hne
  obtain ⟨payload, after, hrest, hnot⟩ := List.eq_append_cons_of_mem hclose
  obtain ⟨behind, hbehind, -⟩ := exists_throughLastClose_append line
  rw [hrest, Text.takeWhile_ne_append_cons hnot]
  refine ⟨⟨after ++ behind, ?_⟩, ?_, hnot⟩
  · calc
      line = before ++ s ++ behind := by rw [← hline, ← hbehind]
      _ = before ++ (callMark ++ (payload ++ ')' :: (after ++ behind))) := by
        rw [hs, hrest]
        simp
  · rintro rfl
    rw [hrest] at hhead
    exact hc (Option.some.inj hhead).symm

/-- The mark of a call stands before the last closing bracket. -/
theorem CallAt.exists_afterMark? {line before payload : List Char}
    (h : CallAt line before payload) : ∃ s rest, throughLastClose line = before ++ s ∧
      afterMark? s = some rest ∧ rest.takeWhile (· ≠ ')') = payload := by
  obtain ⟨after, hline⟩ := h.exists_after
  have hthrough : throughLastClose line =
      before ++ (callMark ++ (payload ++ ')' :: throughLastClose after)) := by
    rw [hline, ← List.append_assoc, ← List.append_assoc, throughLastClose_append_cons]
    simp
  refine ⟨_, payload ++ ')' :: throughLastClose after, hthrough, ?_,
    Text.takeWhile_ne_append_cons h.noClose⟩
  obtain ⟨c, tail, hpayload⟩ := List.exists_cons_of_ne_nil h.nonempty
  have hhead : (payload ++ ')' :: throughLastClose after).head? = some c := by
    rw [hpayload, List.cons_append, List.head?_cons]
  refine afterMark?_eq_some_iff.mpr ⟨rfl, c, hhead, ?_⟩
  rintro rfl
  exact h.noClose (hpayload ▸ List.mem_cons_self)

/-! ### The search -/

theorem lastCallFrom?_cons (before : List Char) (found : Option (List Char × List Char)) (c : Char)
    (s : List Char) :
    lastCallFrom? before found (c :: s) =
      if c = '\n' then found.or (lastCallFrom? [] none s)
      else lastCallFrom? (c :: before)
        (((afterMark? (c :: s)).map fun rest => (before, rest)).or found) s := by
  rw [lastCallFrom?.eq_def]
  dsimp only
  split
  · cases found <;> rfl
  · cases afterMark? (c :: s) <;> rfl

/-- Where no call starts, the search ends with what it had found. -/
theorem lastCallFrom?_of_none {s : List Char} (h : ∀ a b, s = a ++ b → afterMark? b = none)
    (before : List Char) (found : Option (List Char × List Char)) :
    lastCallFrom? before found s = found := by
  induction s generalizing before found with
  | nil => rfl
  | cons c s ih =>
      have hrest : ∀ a b, s = a ++ b → afterMark? b = none := by
        rintro a b rfl
        exact h (c :: a) b rfl
      rw [lastCallFrom?_cons, h [] (c :: s) rfl, ih hrest, ih hrest]
      cases found <;> simp

/-- Characters of one line are passed one by one, whatever is found among them. -/
theorem exists_lastCallFrom?_append {a : List Char} (ha : '\n' ∉ a) (b before : List Char)
    (found : Option (List Char × List Char)) :
    ∃ found', lastCallFrom? before found (a ++ b) =
      lastCallFrom? (a.reverse ++ before) found' b := by
  induction a generalizing before found with
  | nil => exact ⟨found, rfl⟩
  | cons c a ih =>
      rw [List.mem_cons, not_or] at ha
      rw [List.cons_append, lastCallFrom?_cons, if_neg (Ne.symm ha.1), List.reverse_cons,
        List.append_assoc]
      exact ih ha.2 (c :: before) _

/-- The search finds the last call of a text whose first line holds all that stands before it. -/
theorem LastCall.lastCall?_eq {line before payload : List Char} (h : LastCall line before payload)
    (hbefore : '\n' ∉ before) : lastCall? line = some (before, payload) := by
  obtain ⟨s, rest, hline, hmark, hpayload⟩ := h.exists_afterMark?
  obtain ⟨found, hpassed⟩ := exists_lastCallFrom?_append hbefore s [] none
  obtain ⟨hs, -⟩ := afterMark?_eq_some_iff.mp hmark
  obtain ⟨tail, htail⟩ : ∃ tail, s = '#' :: tail := ⟨_, hs⟩
  -- behind the mark of the last call no call starts, so what is found there stays
  have hlater : ∀ a b, tail = a ++ b → afterMark? b = none := by
    rintro a b rfl
    cases hb : afterMark? b with
    | none => rfl
    | some rest' =>
        have hcall : CallAt line (before ++ '#' :: a) (rest'.takeWhile (· ≠ ')')) := by
          apply callAt_of_afterMark? _ hb
          rw [hline, htail]
          simp
        have hle := h.last _ _ hcall
        rw [List.length_append, List.length_cons] at hle
        omega
  have hfound : lastCallFrom? [] none (throughLastClose line) = some (before.reverse, rest) := by
    rw [hline, hpassed, htail, lastCallFrom?_cons, if_neg (by decide), ← htail, hmark,
      List.append_nil]
    exact lastCallFrom?_of_none hlater _ _
  rw [lastCall?, hfound, Option.map_some]
  dsimp only
  rw [List.reverse_reverse, hpayload]

theorem lastCall?_eq_none {line : List Char} (h : ¬∃ before payload, CallAt line before payload) :
    lastCall? line = none := by
  have hnone : ∀ a b, throughLastClose line = a ++ b → afterMark? b = none := by
    intro a b hline
    cases hb : afterMark? b with
    | none => rfl
    | some rest => exact absurd ⟨_, _, callAt_of_afterMark? hline hb⟩ h
  rw [lastCall?, lastCallFrom?_of_none hnone, Option.map_none]

/-- In a text of one line the search finds the last call, and nothing else. -/
theorem lastCall?_eq_some_iff {line before payload : List Char} (hline : '\n' ∉ line) :
    lastCall? line = some (before, payload) ↔ LastCall line before payload := by
  have hfound : ∀ {before payload}, LastCall line before payload →
      lastCall? line = some (before, payload) := by
    intro before payload h
    apply h.lastCall?_eq
    obtain ⟨after, rfl⟩ := h.exists_after
    exact fun hmem => hline (List.mem_append_left _ hmem)
  constructor
  · intro h
    by_cases hcall : ∃ before payload, CallAt line before payload
    · obtain ⟨_, _, hcall⟩ := hcall
      obtain ⟨before', payload', hlast⟩ := hcall.exists_lastCall
      cases h.symm.trans (hfound hlast)
      exact hlast
    · rw [lastCall?_eq_none hcall] at h
      cases h
  · exact hfound

/-! ### What a call gives -/

/-- The outcome of the call with these arguments behind this text, in a list and with these ids. The
first argument names the scriptlet. -/
def callOutcome (listId : String) (ids : IdSequence) (before payload : List Char) :
    Except LineError Scriptlet × IdSequence :=
  if (payload.takeWhile (· ≠ ',')).all Text.isBlank then
    (.error .emptyScriptletName, ids)
  else
    (.ok
      { id := s!"scriptlet_{ids.next.toNat}"
        listId := listId
        domains := (DomainScope.ofChars before).included
        excludeDomains := (DomainScope.ofChars before).excluded
        name := String.ofList (Text.trim (payload.takeWhile (· ≠ ',')))
        args := (payload.splitOn ',').tail.map fun part => String.ofList (Text.trim part) },
      ids.advance)

/-- What the last call of a line gives. -/
theorem scriptlet_of_lastCall? {line before payload : List Char}
    (h : lastCall? line = some (before, payload)) : Filter.scriptlet line =
      if Text.trim (payload.takeWhile (· ≠ ',')) = [] then .error .emptyScriptletName
      else .ok ⟨DomainScope.ofChars before, String.ofList (Text.trim (payload.takeWhile (· ≠ ','))),
        (payload.splitOn ',').tail.map fun part => String.ofList (Text.trim part)⟩ := by
  obtain ⟨parts, hparts⟩ := Text.exists_splitOn_eq ',' payload
  rw [Filter.scriptlet, h]
  dsimp only
  rw [hparts, List.map_cons]
  simp only [List.isEmpty_iff, List.tail_cons, List.map_map]
  rfl

theorem compile_of_lastCall? {line before payload : List Char}
    (h : lastCall? line = some (before, payload)) (listId : String) (ids : IdSequence) :
    compileLine Filter.scriptlet (·.withId listId) ids (String.ofList line) =
      callOutcome listId ids before payload := by
  rw [compileLine, String.toList_ofList, scriptlet_of_lastCall? h, callOutcome]
  have hiff : Text.trim (payload.takeWhile (· ≠ ',')) = [] ↔
      (payload.takeWhile (· ≠ ',')).all Text.isBlank = true :=
    Text.trim_eq_nil_iff.trans List.all_eq_true.symm
  by_cases hblank : (payload.takeWhile (· ≠ ',')).all Text.isBlank = true
  · rw [if_pos hblank, if_pos (hiff.mpr hblank)]
  · rw [if_neg hblank, if_neg fun hnil => hblank (hiff.mp hnil)]
    rfl

/-! ### Calls that are written -/

/-- A part of a call that stands between separators for itself. -/
structure PlainPart (part : List Char) : Prop where
  trimmed : Text.trim part = part
  noComma : ',' ∉ part
  noClose : ')' ∉ part
  noMark : ¬callMark <:+: part

/-- A call as it is written, with a text behind it. -/
structure WrittenCall where
  scope : WrittenScope
  name : String
  args : List String
  after : String
  oneLine : ∀ entry ∈ scope.entries, '\n' ∉ entry.domain
  name_ne : name.toList ≠ []
  plainName : PlainPart name.toList
  plainArgs : ∀ arg ∈ args, PlainPart arg.toList
  noMarkAfter : ¬callMark <:+: after.toList

namespace WrittenCall

variable (w : WrittenCall)

/-- What stands between the brackets. -/
def payload : List Char :=
  w.name.toList ++ w.args.flatMap fun arg => ',' :: ' ' :: arg.toList

/-- The text of a call. -/
def text : List Char :=
  w.scope.text ++ (callMark ++ (w.payload ++ ')' :: w.after.toList))

/-- The call with an id, in a list. -/
def record (listId : String) (id : RuleId) : Scriptlet where
  id := s!"scriptlet_{id.toNat}"
  listId := listId
  domains := w.scope.included
  excludeDomains := w.scope.excluded
  name := w.name
  args := w.args

end WrittenCall

/-- Parts with a comma and a blank in front of each of them are cut at the commas. -/
theorem splitOn_parts {first : List Char} {args : List String} (hfirst : ',' ∉ first)
    (hargs : ∀ arg ∈ args, ',' ∉ arg.toList) :
    (first ++ args.flatMap fun arg => ',' :: ' ' :: arg.toList).splitOn ',' =
      first :: args.map fun arg => ' ' :: arg.toList := by
  induction args generalizing first with
  | nil => simpa using List.splitOn_eq_singleton hfirst
  | cons arg args ih =>
      rw [List.forall_mem_cons] at hargs
      have hnext : ',' ∉ ' ' :: arg.toList :=
        List.not_mem_cons_of_ne_of_not_mem (by decide) hargs.1
      rw [List.flatMap_cons, List.cons_append, List.splitOn_append_cons_self,
        List.splitOn_eq_singleton hfirst, ih hnext hargs.2]
      rfl

/-- No mark stands across a comma. -/
theorem noMark_parts {first : List Char} {args : List String} (hfirst : ¬callMark <:+: first)
    (hargs : ∀ arg ∈ args, ¬callMark <:+: arg.toList) :
    ¬callMark <:+: first ++ args.flatMap fun arg => ',' :: ' ' :: arg.toList := by
  induction args generalizing first with
  | nil => simpa using hfirst
  | cons arg args ih =>
      rw [List.forall_mem_cons] at hargs
      have hnext : ¬callMark <:+: ' ' :: arg.toList := by
        rw [← List.singleton_append, callMark, Text.infix_append_iff_of_not_mem (by decide)]
        exact hargs.1
      rw [List.flatMap_cons, List.cons_append, Text.infix_append_cons_iff (by decide), not_or]
      exact ⟨hfirst, ih hnext hargs.2⟩

theorem noClose_parts {first : List Char} {args : List String} (hfirst : ')' ∉ first)
    (hargs : ∀ arg ∈ args, ')' ∉ arg.toList) :
    ')' ∉ first ++ args.flatMap fun arg => ',' :: ' ' :: arg.toList := by
  simp only [List.mem_append, List.mem_flatMap, List.mem_cons, not_or, not_exists, not_and]
  exact ⟨hfirst, fun arg harg => ⟨by decide, by decide, hargs arg harg⟩⟩

namespace WrittenCall

variable (w : WrittenCall)

theorem callAt_text : CallAt w.text w.scope.text w.payload where
  exists_after := ⟨w.after.toList, rfl⟩
  nonempty := List.append_ne_nil_of_left_ne_nil w.name_ne _
  noClose := noClose_parts w.plainName.noClose fun arg harg => (w.plainArgs arg harg).noClose

/-- Behind the first character of its mark, the text of a call holds no mark. -/
theorem noMark_tail :
    ¬callMark <:+: ['+', 'j', 's', '('] ++ (w.payload ++ ')' :: w.after.toList) := by
  have hpayload : ¬callMark <:+: w.payload :=
    noMark_parts w.plainName.noMark fun arg harg => (w.plainArgs arg harg).noMark
  have hrest : ¬callMark <:+: w.payload ++ ')' :: w.after.toList := by
    rw [Text.infix_append_cons_iff (by decide), not_or]
    exact ⟨hpayload, w.noMarkAfter⟩
  intro hmark
  exact hrest ((Text.infix_append_iff_of_not_mem (by decide)).mp hmark)

/-- A written call is the last one of its text. -/
theorem lastCall_text : LastCall w.text w.scope.text w.payload where
  toCallAt := w.callAt_text
  last before' payload' hcall := by
    obtain ⟨after', htext⟩ := hcall.exists_after
    by_contra hlater
    rcases List.append_eq_append_iff.mp htext with ⟨between, hbefore, htail⟩ | ⟨rest, hscope, -⟩
    · cases between with
      | nil => simp [hbefore] at hlater
      | cons c between =>
          apply w.noMark_tail
          have htail' : ['+', 'j', 's', '('] ++ (w.payload ++ ')' :: w.after.toList) =
              between ++ (callMark ++ (payload' ++ ')' :: after')) :=
            (List.cons.inj htail).2
          rw [htail']
          exact List.infix_append' _ _ _
    · simp [hscope] at hlater

/-- The parts between the commas of a written call are its name and its arguments. -/
theorem splitOn_payload :
    w.payload.splitOn ',' = w.name.toList :: w.args.map fun arg => ' ' :: arg.toList :=
  splitOn_parts w.plainName.noComma fun arg harg => (w.plainArgs arg harg).noComma

theorem takeWhile_payload : w.payload.takeWhile (· ≠ ',') = w.name.toList := by
  obtain ⟨parts, hparts⟩ := Text.exists_splitOn_eq ',' w.payload
  rw [w.splitOn_payload] at hparts
  exact (List.cons.inj hparts).1.symm

/-- The name and the arguments of a written call are read as they are written. -/
theorem callOutcome_payload (listId : String) (ids : IdSequence) :
    callOutcome listId ids w.scope.text w.payload =
      (.ok (w.record listId ids.next), ids.advance) := by
  have hname : Text.trim w.name.toList = w.name.toList := w.plainName.trimmed
  have hinked : ¬w.name.toList.all Text.isBlank = true := by
    rw [List.all_eq_true, ← Text.trim_eq_nil_iff, hname]
    exact w.name_ne
  have hargs : ∀ arg ∈ w.args, String.ofList (Text.trim (' ' :: arg.toList)) = arg := by
    intro arg harg
    calc
      String.ofList (Text.trim (' ' :: arg.toList)) = String.ofList (Text.trim arg.toList) := rfl
      _ = arg := by rw [(w.plainArgs arg harg).trimmed, String.ofList_toList]
  have hmap : (w.args.map fun arg => ' ' :: arg.toList).map
      (fun part => String.ofList (Text.trim part)) = w.args := by
    rw [List.map_map]
    exact List.map_congr_left hargs |>.trans w.args.map_id
  rw [callOutcome, w.takeWhile_payload, if_neg hinked, w.splitOn_payload, List.tail_cons, hmap,
    hname, String.ofList_toList, w.scope.ofChars_text]
  rfl

end WrittenCall

/-! ### The calls of lines -/

/-- A line with a call is not malformed. -/
theorem callOutcome_ne_malformed (listId : String) (ids : IdSequence) (before payload : List Char) :
    callOutcome listId ids before payload ≠ (.error .malformedScriptlet, ids) := by
  rw [callOutcome]
  split
  · simp
  · simp

/-- The last call of a line decides what is compiled. -/
theorem LastCall.compile_eq {line before payload : List Char} (h : LastCall line before payload)
    (hline : '\n' ∉ line) (listId : String) (ids : IdSequence) :
    compileLine Filter.scriptlet (·.withId listId) ids (String.ofList line) =
      callOutcome listId ids before payload :=
  compile_of_lastCall? ((lastCall?_eq_some_iff hline).mpr h) listId ids

theorem compile_of_no_call {line : List Char} (h : ¬∃ before payload, CallAt line before payload)
    (listId : String) (ids : IdSequence) :
    compileLine Filter.scriptlet (·.withId listId) ids (String.ofList line) =
      (.error .malformedScriptlet, ids) := by
  rw [compileLine, String.toList_ofList, Filter.scriptlet, lastCall?_eq_none h]

/-- A written call is read back. -/
theorem WrittenCall.compile_text (w : WrittenCall) (listId : String) (ids : IdSequence) :
    compileLine Filter.scriptlet (·.withId listId) ids (String.ofList w.text) =
      (.ok (w.record listId ids.next), ids.advance) := by
  have hscope : '\n' ∉ w.scope.text := w.scope.not_mem_text (by decide) (by decide) w.oneLine
  calc
    compileLine Filter.scriptlet (·.withId listId) ids (String.ofList w.text) =
        callOutcome listId ids w.scope.text w.payload :=
      compile_of_lastCall? (w.lastCall_text.lastCall?_eq hscope) listId ids
    _ = (.ok (w.record listId ids.next), ids.advance) := w.callOutcome_payload listId ids

/-- **The last call of a line is the one that is compiled.** A line is malformed exactly if no call
stands in it. Otherwise there is a last call, and the line gives what that call says: an error if the
first argument is blank, else the scriptlet of that name with the other arguments, for the domains in
front of the call. A call that is written with its domains is therefore read back, whatever stands
behind it, as long as that holds no mark of a call. -/
theorem last_call_of_line_is_compiled (listId : String) (ids : IdSequence) :
    (∀ line : List Char, '\n' ∉ line →
      (compileLine Filter.scriptlet (·.withId listId) ids (String.ofList line) =
          (.error .malformedScriptlet, ids) ↔
        ¬∃ before payload, CallAt line before payload) ∧
      ((∃ before payload, CallAt line before payload) →
        ∃ before payload, LastCall line before payload ∧
          compileLine Filter.scriptlet (·.withId listId) ids (String.ofList line) =
            callOutcome listId ids before payload)) ∧
    ∀ w : WrittenCall,
      compileLine Filter.scriptlet (·.withId listId) ids (String.ofList w.text) =
        (.ok (w.record listId ids.next), ids.advance) := by
  refine ⟨fun line hline => ⟨⟨?_, ?_⟩, ?_⟩, fun w => w.compile_text listId ids⟩
  · rintro hmalformed ⟨before, payload, hcall⟩
    obtain ⟨before, payload, hlast⟩ := hcall.exists_lastCall
    apply callOutcome_ne_malformed listId ids before payload
    rw [← hlast.compile_eq hline, hmalformed]
  · intro hnone
    exact compile_of_no_call hnone listId ids
  · rintro ⟨before, payload, hcall⟩
    obtain ⟨before, payload, hlast⟩ := hcall.exists_lastCall
    exact ⟨before, payload, hlast, hlast.compile_eq hline listId ids⟩

/-- A call with an argument that is empty and a bracket behind it. -/
def WrittenCall.sample : WrittenCall where
  scope := .sample
  name := "set"
  args := ["a b", ""]
  after := " (sic)"
  oneLine := by decide
  name_ne := by decide
  plainName := ⟨by decide, by decide, by decide, by rw [← Text.occurs_iff_infix]; decide⟩
  plainArgs := by
    simp only [List.forall_mem_cons]
    exact ⟨⟨by decide, by decide, by decide, by rw [← Text.occurs_iff_infix]; decide⟩,
      ⟨by decide, by decide, by decide, by rw [← Text.occurs_iff_infix]; decide⟩, by simp⟩
  noMarkAfter := by
    rw [← Text.occurs_iff_infix]
    decide

theorem last_call_of_line_is_compiled_sample :
    (¬∃ before payload, CallAt "a.com#+js()#+js(x".toList before payload) ∧
      (∃ before payload, LastCall "a.com#+js(x)b.org#+js(y, z)#+js()".toList before payload ∧
        compileLine Filter.scriptlet (·.withId "ads") default
            (String.ofList "a.com#+js(x)b.org#+js(y, z)#+js()".toList) =
          callOutcome "ads" default before payload) ∧
      compileLine Filter.scriptlet (·.withId "ads") default
          "example.com,~shop.example.com#+js(set, a b, ) (sic)" =
        (.ok ⟨"scriptlet_1000", "ads", ["example.com"], ["shop.example.com"], "set", ["a b", ""]⟩,
          ⟨1001⟩) := by
  obtain ⟨hlines, hwritten⟩ := last_call_of_line_is_compiled "ads" default
  have htext : String.ofList WrittenCall.sample.text =
      "example.com,~shop.example.com#+js(set, a b, ) (sic)" := by
    decide +kernel
  refine ⟨?_, ?_, ?_⟩
  · exact (hlines _ (by decide)).1.mp (by decide +kernel)
  · exact (hlines _ (by decide)).2 ⟨"a.com".toList, "x".toList, ⟨_, rfl⟩, by decide, by decide⟩
  · rw [← htext, hwritten]
    decide +kernel

end Blocklist.Filter
