import VPlc.Tags.Manager
import VPlc.Web.MemoryApi

/-!
# Adding and removing tags over HTTP

The two routes that change the tag list. A body is what `json::parse` makes of
it, or the text of what it throws; a missing query parameter reads as the empty
string.
-/

namespace VPlc

namespace PlcTagManager

/-- `POST /api/tags` up to the call of `addTag`: the tag, or the reply. -/
def tagOfBody (body : Except String Json) : Except HttpResponse PlcTag :=
  match body with
  | .error what => .error ⟨400, "JSON Parsing Error: " ++ what⟩
  | .ok j =>
      match PlcTag.ofJson j with
      | .error e => .error ⟨400, "JSON Parsing Error: " ++ e.what⟩
      | .ok tag =>
          if tag.filled then .ok tag
          else .error ⟨400, "Invalid tag details. Required fields missing."⟩

/-- `POST /api/tags`. -/
def postTags (mgr : PlcTagManager) (body : Except String Json) :
    PlcTagManager × HttpResponse :=
  match tagOfBody body with
  | .error res => (mgr, res)
  | .ok tag =>
      match mgr.addTag tag with
      | (mgr', true) => (mgr', ⟨200, "Success"⟩)
      | (mgr', false) =>
          (mgr', ⟨400, "Failed to add tag. Name might be duplicate or address out of bounds."⟩)

/-- `DELETE /api/tags`. -/
def deleteTags (mgr : PlcTagManager) (name : String) :
    PlcTagManager × HttpResponse :=
  if name.isEmpty then (mgr, ⟨400, "Missing parameter 'name'"⟩)
  else
    match mgr.removeTag name with
    | (mgr', true) => (mgr', ⟨200, "Success"⟩)
    | (mgr', false) => (mgr', ⟨400, "Tag not found"⟩)

theorem filled_of_tagOfBody {body : Except String Json} {tag : PlcTag}
    (h : tagOfBody body = .ok tag) : tag.filled = true := by
  unfold tagOfBody at h
  split at h
  · cases h
  split at h
  · cases h
  split at h
  · next hfilled =>
      cases h
      exact hfilled
  · cases h

theorem status_of_tagOfBody {body : Except String Json} {res : HttpResponse}
    (h : tagOfBody body = .error res) : res.status = 400 := by
  unfold tagOfBody at h
  split at h
  · cases h
    rfl
  split at h
  · cases h
    rfl
  split at h
  · cases h
  · cases h
    rfl

/-- A request to one of the two routes. -/
inductive TagsRequest
  | post (body : Except String Json)
  | delete (name : String)

namespace TagsRequest

def respond (mgr : PlcTagManager) : TagsRequest → PlcTagManager × HttpResponse
  | post body => mgr.postTags body
  | delete name => mgr.deleteTags name

/-- The call a request comes to, if its route lets it through. -/
def call? : TagsRequest → Option Request
  | post body =>
      match tagOfBody body with
      | .error _ => none
      | .ok tag => some (.addTag tag)
  | delete name => if name.isEmpty then none else some (.removeTag name)

/-- A route makes the call, or it does nothing. -/
theorem respond_manager (mgr : PlcTagManager) (r : TagsRequest) :
    (r.respond mgr).1 = r.call?.elim mgr fun c => (c.call mgr).1 := by
  cases r with
  | post body =>
      rw [respond, postTags, call?]
      cases tagOfBody body with
      | error res => rfl
      | ok tag =>
          dsimp only [Option.elim_some, Request.call]
          rcases mgr.addTag tag with ⟨mgr', _ | _⟩ <;> rfl
  | delete name =>
      rw [respond, deleteTags, call?]
      split
      · rfl
      · dsimp only [Option.elim_some, Request.call]
        rcases mgr.removeTag name with ⟨mgr', _ | _⟩ <;> rfl

/-- And it reports success just if the call did. -/
theorem respond_status (mgr : PlcTagManager) (r : TagsRequest) :
    (r.respond mgr).2.status = 200 ↔ r.call?.any (fun c => (c.call mgr).2) = true := by
  cases r with
  | post body =>
      rw [respond, postTags, call?]
      cases hbody : tagOfBody body with
      | error res => simp [status_of_tagOfBody hbody]
      | ok tag =>
          dsimp only [Option.any_some, Request.call]
          rcases mgr.addTag tag with ⟨mgr', _ | _⟩ <;> simp
  | delete name =>
      rw [respond, deleteTags, call?]
      split
      · simp
      · dsimp only [Option.any_some, Request.call]
        rcases mgr.removeTag name with ⟨mgr', _ | _⟩ <;> simp

/-- No tag with an empty required field gets past the route. -/
theorem filled_of_call? {r : TagsRequest} {tag : PlcTag} (h : r.call? = some (.addTag tag)) :
    tag.filled = true := by
  cases r with
  | post body =>
      rw [call?] at h
      split at h
      · cases h
      · next hbody =>
          cases h
          exact filled_of_tagOfBody hbody
  | delete name =>
      rw [call?] at h
      split at h <;> cases h

end TagsRequest

end PlcTagManager

end VPlc
