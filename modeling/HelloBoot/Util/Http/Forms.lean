import HelloBoot.Util.Http.HttpClientUtil
import HelloBoot.Util.Http.HttpUtil

/-!
# The body of a form post

`HttpUtil.sendPostForm` writes the entries of the form as they are, so the body is read as
the form exactly if all entries are plain (`carries_written_iff`). `HttpClientUtil.doPostForm`
leaves the encoding to the library, and its body is always read as the form
(`carries_entity`); but it posts only where no value is null (`of_mem_requested`).
-/

namespace HelloBoot.Http

open FormUrlEncoded HttpUtil HttpClientUtil

variable {net : Network} {lib : HttpComponents} {url : String} {formData : Params}
  {header : Option Params} {timeoutSeconds : Option ℤ} {c : URLConnection} {r : HttpPost}

theorem written_eq (hne : formData.entries ≠ [])
    (hc : c ∈ posted (sendPostForm net url (some formData) header)) :
    c.written = some (raw (fields formData)) := by
  rw [written_of_mem_posted hc, assembleFormData, assemble_eq hne, Option.map_some, utf8_joined]

theorem fields_ne_nil (hne : formData.entries ≠ []) : fields formData ≠ [] := by
  simpa [fields] using hne

theorem carries_written_iff (hne : formData.entries ≠ [])
    (hc : c ∈ posted (sendPostForm net url (some formData) header)) :
    (∃ b, c.written = some b ∧ Carries formData b) ↔ ∀ e ∈ fields formData, Plain e := by
  rw [written_eq hne hc, ← parse_raw_perm_iff (fields_ne_nil hne)]
  constructor
  · rintro ⟨b, hb, hcarries⟩
    exact Option.some.inj hb ▸ hcarries
  · exact fun h => ⟨_, rfl, h⟩

theorem carries_entity (hlib : lib.FormEncodes) (hne : formData.entries ≠ [])
    (hr : r ∈ requested (doPostForm lib url (some formData) header timeoutSeconds)) :
    ∃ b, r.entity = some b ∧ Carries formData b := by
  refine ⟨_, (of_mem_requested hr).2, fields formData, ?_, .refl _⟩
  rw [hlib, parse_format (fields_ne_nil hne)]

/-- Exactly the forms with plain entries are carried by `sendPostForm`, while `doPostForm`
carries every form that it posts. -/
theorem sendPostForm_carries_iff (hne : formData.entries ≠ [])
    (hc : c ∈ posted (sendPostForm net url (some formData) header)) :
    ((∃ b, c.written = some b ∧ Carries formData b) ↔ ∀ e ∈ fields formData, Plain e) ∧
      ∀ (lib : HttpComponents), lib.FormEncodes →
        ∀ (url : String) (header : Option Params) (timeoutSeconds : Option ℤ),
          ∀ r ∈ requested (doPostForm lib url (some formData) header timeoutSeconds),
            ∃ b, r.entity = some b ∧ Carries formData b :=
  ⟨carries_written_iff hne hc, fun _ hlib _ _ _ _ hr => carries_entity hlib hne hr⟩

def working : Network where
  openConnection _ := .ok ()
  write _ _ := .ok ()
  save _ _ := .ok ()
  readLines _ := .ok []

def formConnection (body : Octets) : URLConnection where
  url := "http://127.0.0.1:8001/testPost"
  requestProperties := [("Content-Type", formType)]
  doOutput := true
  useCaches := false
  connectTimeout := 30000
  readTimeout := 60000
  written := some body

theorem sendPostForm_carries_iff_userId :
    ((∃ b, (formConnection (raw [("userId", "123")])).written = some b ∧ Carries userId b) ↔
        ∀ e ∈ fields userId, Plain e) ∧
      ∀ (lib : HttpComponents), lib.FormEncodes →
        ∀ (url : String) (header : Option Params) (timeoutSeconds : Option ℤ),
          ∀ r ∈ requested (doPostForm lib url (some userId) header timeoutSeconds),
            ∃ b, r.entity = some b ∧ Carries userId b := by
  have hc : formConnection (raw [("userId", "123")]) ∈ posted (sendPostForm working
      "http://127.0.0.1:8001/testPost" (some userId) none) := List.mem_singleton.mpr rfl
  exact sendPostForm_carries_iff (by decide) hc

def companyForm : Params :=
  ⟨[("company", some (.string "A&B"))], List.nodup_singleton _⟩

/-- The form with the value `A&B` is posted, and its body is not read as this form. -/
theorem not_carries_company :
    ¬ ∀ c ∈ posted (sendPostForm working "http://127.0.0.1:8001/testPost" (some companyForm)
      none), ∃ b, c.written = some b ∧ Carries companyForm b := by
  intro h
  have hc : formConnection (utf8 "company=A&B") ∈ posted (sendPostForm working
      "http://127.0.0.1:8001/testPost" (some companyForm) none) := List.mem_singleton.mpr rfl
  have hplain := (carries_written_iff (by decide) hc).mp (h _ hc)
  have hamp := (hplain ("company", "A&B") (.head _)).2 '&' (.head _)
  exact hamp.2 (by decide)

end HelloBoot.Http
