import StorageClient.Wire.Escape

/-!
Commands of the storage service and the lines that ask for them.
-/

namespace StorageClient

inductive Command where
  | login (user password : Text)
  | logout
  | listUsers
  | createUser (user password : Text)
  | deleteUser (user : Text)
  | listDir (dir : Text)
  | createFile (path content : Text)
  | getFile (path : Text)
  | deleteFile (path : Text)
  | createDir (dir : Text)
  | deleteDir (dir : Text)
  | renameFile (source target : Text)
  | truncateFile (path size : Text)
  | setPermissions (path permissions : Text)
  | getMetadata (path : Text)
  | getSessionInfo
deriving DecidableEq, Repr

namespace Command

def word : Command → Text
  | login .. => "login".toList
  | logout => "logout".toList
  | listUsers => "list_users".toList
  | createUser .. => "create_user".toList
  | deleteUser .. => "delete_user".toList
  | listDir .. => "dir_list".toList
  | createFile .. => "create_file".toList
  | getFile .. => "read_file".toList
  | deleteFile .. => "delete_file".toList
  | createDir .. => "create_dir".toList
  | deleteDir .. => "delete_dir".toList
  | renameFile .. => "rename_file".toList
  | truncateFile .. => "truncate_file".toList
  | setPermissions .. => "set_permissions".toList
  | getMetadata .. => "get_metadata".toList
  | getSessionInfo => "get_session_info".toList

/-- The words after the first. Content is quoted, and every new user is a normal one. -/
def arguments : Command → List Text
  | login u p => [u, p]
  | createUser u p => [u, p, "normal".toList]
  | deleteUser u => [u]
  | createFile p c => [p, '"' :: Escape.encode c ++ ['"']]
  | listDir p | getFile p | deleteFile p | createDir p | deleteDir p | getMetadata p => [p]
  | renameFile s t => [s, t]
  | truncateFile p n => [p, n]
  | setPermissions p m => [p, m]
  | logout | listUsers | getSessionInfo => []

/-- The line of a command: its words, with a space before each argument. -/
def line (c : Command) : Text := c.word ++ c.arguments.flatMap (' ' :: ·)

end Command

end StorageClient
