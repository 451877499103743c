import IDeviceStack.Libplist.Independence
import IDeviceStack.Libplist.Bplist.Conversion
import IDeviceStack.Libplist.Bplist.Widths
import IDeviceStack.Libplist.Xplist.Dates
import IDeviceStack.Libplist.Xplist.Comments
import IDeviceStack.Libplist.Xplist.EmptyElements
import IDeviceStack.Libplist.Base64Buffer
import IDeviceStack.Usbmuxd.UsbSend
import IDeviceStack.Usbmuxd.Window
import IDeviceStack.Usbmuxd.Slices
import IDeviceStack.Usbmuxd.Ports
import IDeviceStack.Usbmuxd.Leftover
import IDeviceStack.Usbmuxd.RecordWrites
import IDeviceStack.Libusbmuxd.DeviceList
import IDeviceStack.Libimobiledevice.DebugserverHex
import IDeviceStack.Libimobiledevice.AfcLists
import IDeviceStack.Libimobiledevice.AfcWrite
import IDeviceStack.Libimobiledevice.SyncBracket
import IDeviceStack.Libimobiledevice.NotificationProxy
import IDeviceStack.Libimobiledevice.Session
import IDeviceStack.Libimobiledevice.Browse
import IDeviceStack.Libimobiledevice.ImageMounter
import IDeviceStack.Libimobiledevice.FileContents
import IDeviceStack.Libimobiledevice.MakeParents
import IDeviceStack.Libimobiledevice.MoveItems
import IDeviceStack.WebkitProxy.HashTable
import IDeviceStack.WebkitProxy.DeviceListener
import IDeviceStack.WebkitProxy.TextFrames
import IDeviceStack.WebkitProxy.Lengths
import IDeviceStack.WebkitProxy.SendQueue
import IDeviceStack.WebkitProxy.BackPressure
import IDeviceStack.WebkitProxy.Rpc
import IDeviceStack.WebkitProxy.Listings
import IDeviceStack.WebkitProxy.Confinement
import IDeviceStack.WebkitProxy.UrlDecoding
import IDeviceStack.WebkitProxy.Attach
import IDeviceStack.Libusbmuxd.Conversation
