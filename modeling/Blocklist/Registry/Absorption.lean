import Blocklist.Cache
import Blocklist.Event

/-!
# Absorbing replies

What the replies of a list's sources make of the list: the segments that go into the cache, the ids
they take, and the new state of the list. A source that failed contributes nothing, one without news
keeps its segment. A list whose every source failed stays as it is.
-/

namespace Blocklist

/-- What a refresh did to a list. -/
inductive RefreshOutcome where
  /-- The cache holds a new entry for the list. -/
  | updated
  /-- No source had news. -/
  | notModified
  /-- Every source failed. -/
  | failed
  deriving DecidableEq, Repr, Inhabited

/-- The replies of the sources of one list, in the order of its sources, and when they were taken. -/
structure Delivery where
  replies : List Reply
  time : Timestamp

/-- What the replies of some sources come to. -/
structure Intake where
  /-- The segments, in the order of the sources. -/
  segments : List Segment
  /-- The sequence after the ids of the new segments are taken. -/
  ids : IdSequence
  events : List Event

namespace Intake

/-- What one reply comes to, beside what was compiled for the list before. -/
def ofReply (listId : String) (previous : Option ListArtifacts) (ids : IdSequence)
    (source : ListSource) : Reply → Intake
  | .ok .notModified =>
    ⟨(previous.bind (·.source? source.url)).toList, ids, [.sourceUnchanged listId source.title]⟩
  | .ok (.fetched body etag) =>
    let c := compileList ids listId body
    ⟨[.ofCompiled source.url etag c.list], c.ids,
      c.rejections.map (.lineRejected listId) ++ [.sourceCompiled listId source.title c.list.stats]⟩
  | .error error => ⟨[], ids, [.sourceFailed listId source error]⟩

/-- What the replies of several sources come to. Their ids run on from source to source. -/
def ofReplies (listId : String) (previous : Option ListArtifacts) (ids : IdSequence) :
    List (ListSource × Reply) → Intake
  | [] => ⟨[], ids, []⟩
  | (source, reply) :: rest =>
    let one := ofReply listId previous ids source reply
    let others := ofReplies listId previous one.ids rest
    ⟨one.segments ++ others.segments, others.ids, one.events ++ others.events⟩

end Intake

/-- What a delivery makes of a list. -/
structure Absorption where
  outcome : RefreshOutcome
  list : FilterList
  cache : RuleCache
  ids : IdSequence
  events : List Event

/-- Take the replies of a list's sources into the list and the cache. -/
def FilterList.absorb (l : FilterList) (cache : RuleCache) (ids : IdSequence) (delivery : Delivery) :
    Absorption :=
  let replies := delivery.replies
  let intake := Intake.ofReplies l.id (cache.get? l.id) ids (l.sources.zip replies)
  if !l.sources.isEmpty && replies.all Reply.isFailure then
    ⟨.failed, l, cache, intake.ids, intake.events ++ [.everySourceFailed l.id]⟩
  else
    let l := { l with lastFetch := some delivery.time }
    if !replies.any Reply.isText && intake.segments.length == l.sources.length then
      ⟨.notModified, l, cache, intake.ids, intake.events⟩
    else
      let artifacts : ListArtifacts := ⟨intake.segments⟩
      let etag := (replies.filterMap Reply.etag?).getLast?
      ⟨.updated, { l with ruleCount := artifacts.ruleCount, etag := etag.or l.etag },
        cache.insert l.id artifacts, intake.ids,
        intake.events ++ [.listCompiled l.id artifacts.stats]⟩

end Blocklist
