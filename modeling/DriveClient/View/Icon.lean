/-!
# Icons

Where the pictures of the client are kept.
-/

namespace DriveClient.View.Icon

/-- The product's logo. -/
def logo : String := "images/logo.svg"

/-- Path of a picture in the icon folder. -/
def named (name : String) : String := s!"images/icons/{name}.svg"

/-- A magnifying glass. -/
def search : String := named "search"

/-- Switches, for the settings of the search. -/
def switches : String := named "switches"

/-- A question mark. -/
def help : String := named "help"

/-- The settings of the client. -/
def settings : String := named "settings"

/-- An arrow to the top. -/
def topArrow : String := named "top-arrow"

/-- A tree of folders. -/
def fileSystem : String := named "filesystem"

/-- A clock. -/
def clock : String := named "clock"

/-- Files on their way up. -/
def upload : String := named "upload"

/-- A bin. -/
def trash : String := named "trash"

/-- A cloud. -/
def cloud : String := named "cloud"

end DriveClient.View.Icon
