/-! Names as documents write them: a local part, or a prefix, a colon and a local part. The first
colon divides, so a local part may hold further colons. -/
namespace SchemaBinding
namespace Prefixed

/-- The text before and after the first colon. -/
def split (name : String) : Option String × String :=
  match name.toList.dropWhile (· ≠ ':') with
  | [] => (none,name)
  | _ :: rest => (some (String.ofList (name.toList.takeWhile (· ≠ ':'))),String.ofList rest)

def localPart (name : String) : String := (split name).2

theorem split_prefixed {pre : String} (localName : String) (h : ':' ∉ pre.toList) :
    split (pre ++ ":" ++ localName) = (some pre,localName) := by
  have hcolon : ∀ c ∈ pre.toList, (decide (c ≠ ':')) = true := by
    intro c hc
    simpa using fun e : c = ':' => h (e ▸ hc)
  have hlist : (pre ++ ":" ++ localName).toList = pre.toList ++ ':' :: localName.toList := by simp
  unfold split
  rw [hlist,List.dropWhile_append_of_pos hcolon,List.takeWhile_append_of_pos hcolon]
  simp

theorem eq_of_split_none {name localName : String} (h : split name = (none,localName)) : localName = name := by
  unfold split at h
  split at h
  · exact (Prod.mk.inj h).2.symm
  · cases (Prod.mk.inj h).1

theorem eq_of_split_some {name pre localName : String} (h : split name = (some pre,localName)) :
    name = pre ++ ":" ++ localName := by
  unfold split at h
  split at h
  · cases (Prod.mk.inj h).1
  · rename_i c rest hdrop
    obtain ⟨hpre,rfl⟩ := Prod.mk.inj h
    obtain rfl := Option.some.inj hpre
    have hcolon : c = ':' := by
      have hhead := List.head?_dropWhile_not (· ≠ ':') name.toList
      rw [hdrop] at hhead
      simpa using hhead
    have hparts : name.toList.takeWhile (· ≠ ':') ++ name.toList.dropWhile (· ≠ ':') = name.toList :=
      List.takeWhile_append_dropWhile
    rw [hdrop,hcolon] at hparts
    rw [← String.toList_inj]
    simpa using hparts.symm

end Prefixed
end SchemaBinding
